import N8n.FieldMatching
import N8n.Proofs.FilterParameter

/-!
# Which items are found

The object that the values are looked up in has one key for all pairs with the same second field, so
that only the last of these is compared.
-/

namespace N8n

namespace FieldMatching

variable {rt : ItemRuntime} {disableDotNotation : Bool} {isEntriesEqual : JsValue → JsValue → Bool}

/-! ## Properties -/

theorem lookup_setEntry (key key' : CodeUnits) (value : JsValue) (json : Json) :
    (Dict.setEntry key value json).lookup key' = if key' = key then some value else json.lookup key' := by
  -- The two tests for equal keys are found in different ways.
  have hbeq : (List.instBEq : BEq CodeUnits) = instBEqOfDecidableEq :=
    lawful_beq_subsingleton _ _
  rw [hbeq]
  exact Dict.lookup_setEntry key key' value json

/-! ## Decisive pairs -/

theorem mem_of_mem_decisive {pair : PairToMatch} : ∀ {pairs : List PairToMatch},
    pair ∈ decisive pairs → pair ∈ pairs
  | [], h => h
  | first :: pairs, h => by
    unfold decisive at h
    split_ifs at h with hpassed
    · exact List.mem_cons_of_mem first (mem_of_mem_decisive h)
    · rcases List.mem_cons.1 h with rfl | h
      · exact List.mem_cons_self
      · exact List.mem_cons_of_mem first (mem_of_mem_decisive h)

/-- The decisive pair of a second field. -/
def decisivePair (pairs : List PairToMatch) (key : String) : Option PairToMatch :=
  (decisive pairs).find? (·.field2 = key)

theorem decisivePair_cons (pair : PairToMatch) (pairs : List PairToMatch) (key : String) :
    decisivePair (pair :: pairs) key =
      if pair.field2 = key ∧ key ≠ "__proto__" ∧ key ∉ pairs.map PairToMatch.field2 then some pair
      else decisivePair pairs key := by
  unfold decisivePair
  rw [decisive]
  by_cases hkey : pair.field2 = key
  · subst hkey
    by_cases hpassed : pair.field2 = "__proto__" ∨ pair.field2 ∈ pairs.map PairToMatch.field2
    · rw [if_pos hpassed, if_neg]
      rintro ⟨-, hproto, hlast⟩
      exact hpassed.elim hproto hlast
    · rw [if_neg hpassed, List.find?_cons_of_pos (by simp), if_pos]
      exact ⟨rfl, not_or.1 hpassed⟩
  · have hother : ¬ (pair.field2 = key ∧ key ≠ "__proto__" ∧
        key ∉ pairs.map PairToMatch.field2) := fun h => hkey h.1
    rw [if_neg hother]
    split_ifs
    · rfl
    · rw [List.find?_cons_of_neg (by simpa using hkey)]

/-- Where there is a pair for a second field, there is a decisive one. -/
theorem isSome_decisivePair {key : String} (hproto : key ≠ "__proto__") :
    ∀ {pairs : List PairToMatch}, key ∈ pairs.map PairToMatch.field2 →
      (decisivePair pairs key).isSome
  | [], h => absurd h List.not_mem_nil
  | pair :: pairs, h => by
    rw [decisivePair_cons]
    split_ifs with hlast
    · rfl
    · refine isSome_decisivePair hproto ?_
      rcases List.mem_cons.1 h with rfl | h
      · by_contra hnot
        exact hlast ⟨rfl, hproto, hnot⟩
      · exact h

theorem get?_foldl_lookup (json : Json) (key : String) : ∀ (pairs : List PairToMatch)
    (lookup : Dict String JsValue),
    (pairs.foldl (fun lookup matchCase =>
        if matchCase.field2 = "__proto__" then lookup
        else lookup.set matchCase.field2 (readField rt disableDotNotation json matchCase.field1))
      lookup).get? key =
    (decisivePair pairs key).elim (lookup.get? key) fun pair =>
      some (readField rt disableDotNotation json pair.field1)
  | [], _ => rfl
  | pair :: pairs, lookup => by
    rw [List.foldl_cons, get?_foldl_lookup json key pairs, decisivePair_cons]
    by_cases hproto : pair.field2 = "__proto__"
    · rw [if_pos hproto, if_neg]
      rintro ⟨rfl, hne, -⟩
      exact hne hproto
    · rw [if_neg hproto, Dict.get?_set]
      by_cases hkey : key = pair.field2
      · subst hkey
        rw [if_pos rfl]
        by_cases hlater : pair.field2 ∈ pairs.map PairToMatch.field2
        · obtain ⟨later, hlater'⟩ := Option.isSome_iff_exists.1 (isSome_decisivePair hproto hlater)
          rw [if_neg fun h => h.2.2 hlater, hlater']
          rfl
        · rw [if_pos ⟨rfl, hproto, hlater⟩]
          cases hfound : decisivePair pairs pair.field2 with
          | none => rfl
          | some later =>
            have hmem := mem_of_mem_decisive (List.mem_of_find?_eq_some hfound)
            have hfield : later.field2 = pair.field2 := by
              simpa using List.find?_some hfound
            exact absurd (hfield ▸ List.mem_map_of_mem hmem) hlater
      · rw [if_neg hkey, if_neg fun h => hkey h.1.symm]

theorem eq_of_mem_decisive {pair pair' : PairToMatch} : ∀ {pairs : List PairToMatch},
    pair ∈ decisive pairs → pair' ∈ decisive pairs → pair.field2 = pair'.field2 → pair = pair'
  | [], h, _, _ => absurd h List.not_mem_nil
  | first :: pairs, h, h', heq => by
    unfold decisive at h h'
    split_ifs at h h' with hpassed
    · exact eq_of_mem_decisive h h' heq
    · have hlast : ∀ later ∈ decisive pairs, later.field2 ≠ first.field2 := by
        intro later hlater hfield
        exact hpassed (.inr (hfield ▸ List.mem_map_of_mem (mem_of_mem_decisive hlater)))
      rcases List.mem_cons.1 h with hfirst | h
      · rcases List.mem_cons.1 h' with hfirst' | h'
        · rw [hfirst, hfirst']
        · exact absurd (heq ▸ congrArg PairToMatch.field2 hfirst) (hlast _ h')
      · rcases List.mem_cons.1 h' with hfirst' | h'
        · exact absurd (heq.trans (congrArg PairToMatch.field2 hfirst')) (hlast _ h)
        · exact eq_of_mem_decisive h h' heq

/-- The entries of the object are those of the decisive pairs. -/
theorem mem_lookupOf {pairs : List PairToMatch} {json : Json} {key : String} {value : JsValue} :
    (key, value) ∈ (lookupOf rt disableDotNotation pairs json).entries ↔
      ∃ pair ∈ decisive pairs, pair.field2 = key ∧
        readField rt disableDotNotation json pair.field1 = value := by
  rw [Dict.mem_entries, lookupOf, get?_foldl_lookup]
  cases hfound : decisivePair pairs key with
  | none =>
    constructor
    · rintro ⟨⟩
    · rintro ⟨pair, hpair, rfl, -⟩
      exact absurd (List.find?_eq_none.1 hfound pair hpair) (by simp)
  | some found =>
    have hmem := List.mem_of_find?_eq_some hfound
    have hfield : found.field2 = key := by
      simpa using List.find?_some hfound
    constructor
    · intro h
      exact ⟨found, hmem, hfield, Option.some.inj h⟩
    · rintro ⟨pair, hpair, hkey, rfl⟩
      rw [eq_of_mem_decisive hpair hmem (hkey.trans hfield.symm)]
      rfl

/-! ## Matches -/

theorem agree_decisive_iff {pairs : List PairToMatch} {json1 json2 : Json} :
    Agree rt disableDotNotation isEntriesEqual (decisive pairs) json1 json2 ↔
      (lookupOf rt disableDotNotation pairs json1).entries.any (·.2.isUndefined) = false ∧
      ((lookupOf rt disableDotNotation pairs json1).entries.all fun entry =>
        isEntriesEqual entry.2 (readField rt disableDotNotation json2 entry.1)) = true := by
  rw [List.any_eq_false, List.all_eq_true]
  constructor
  · intro h
    constructor
    · rintro ⟨key, value⟩ hentry
      obtain ⟨pair, hpair, -, rfl⟩ := mem_lookupOf.1 hentry
      rw [(h pair hpair).1]
      exact Bool.false_ne_true
    · rintro ⟨key, value⟩ hentry
      obtain ⟨pair, hpair, rfl, rfl⟩ := mem_lookupOf.1 hentry
      exact (h pair hpair).2
  · rintro ⟨hdefined, hequal⟩ pair hpair
    have hentry : (pair.field2, readField rt disableDotNotation json1 pair.field1) ∈
        (lookupOf rt disableDotNotation pairs json1).entries :=
      mem_lookupOf.2 ⟨pair, hpair, rfl, rfl⟩
    exact ⟨Bool.eq_false_iff.2 (hdefined _ hentry), hequal _ hentry⟩

section

variable {α : Type} {data : List α} {json : α → Json} {pairs : List PairToMatch} {json1 : Json}

/-- The matches are the items that agree on the decisive pairs. -/
theorem foundedMatches_all : foundedMatches rt json data
      (lookupOf rt disableDotNotation pairs json1) disableDotNotation isEntriesEqual .all =
    data.zipIdx.filter fun entry =>
      Agree rt disableDotNotation isEntriesEqual (decisive pairs) json1 (json entry.1) := by
  unfold foundedMatches
  split_ifs with hundefined
  · symm
    rw [List.filter_eq_nil_iff]
    intro entry _ h
    have hagree := agree_decisive_iff.1 (of_decide_eq_true h)
    exact absurd hundefined (Bool.eq_false_iff.1 hagree.1)
  · refine List.filter_congr fun entry _ => Bool.eq_iff_iff.2 ?_
    rw [decide_eq_true_eq, agree_decisive_iff, and_iff_right (Bool.eq_false_iff.2 hundefined)]
    rfl

theorem map_fst_filter_zipIdx (p : α → Bool) (data : List α) :
    (data.zipIdx.filter fun entry => p entry.1).map Prod.fst = data.filter p := by
  conv_rhs => rw [← List.zipIdx_map_fst 0 data, List.filter_map]
  rfl

end

end FieldMatching

end N8n

/-!
# When a merge is an exact join

The result is the join on the decisive pairs of fields. It is the join on all pairs just if items
that agree on the decisive ones agree on the others too.
-/

namespace N8n

namespace MergeByFields

open FieldMatching

variable {rt : ItemRuntime} {δ : Type} {input1 input2 : List (DataItem δ)}
  {fieldsToMatch : List PairToMatch} {options : MatchFieldsOptions}

section Join

variable {agrees agrees' : DataItem δ → DataItem δ → Prop} [∀ entry1, DecidablePred (agrees entry1)]
  [∀ entry1, DecidablePred (agrees' entry1)] {found : FilteredData δ}

/-- The pairs in the entries of one item. -/
theorem mem_entriesOf {entry entry1 entry2 : DataItem δ} {items : List (DataItem δ)} :
    (∃ m ∈ entriesOf options entry items, m.entry = entry1 ∧ entry2 ∈ m.matches) ↔
      entry = entry1 ∧ entry2 ∈ items := by
  unfold entriesOf
  split_ifs
  · simp [List.mem_map, and_comm]
  · simp

/-- Two items are paired. -/
def Paired (found : FilteredData δ) (entry1 entry2 : DataItem δ) : Prop :=
  ∃ m ∈ found.matched, m.entry = entry1 ∧ entry2 ∈ m.matches

/-- In a join the items that agree are paired, and no others. -/
theorem IsJoin.paired_iff (h : IsJoin input1 input2 options agrees found)
    {entry1 entry2 : DataItem δ} : Paired found entry1 entry2 ↔
      entry1 ∈ input1 ∧ entry2 ∈ input2 ∧ agrees entry1 entry2 := by
  unfold Paired
  rw [h.matched]
  constructor
  · rintro ⟨m, hm, hentry⟩
    obtain ⟨entry, hmem, hm⟩ := List.mem_flatMap.1 hm
    obtain ⟨rfl, hentry2⟩ := mem_entriesOf.1 ⟨m, hm, hentry⟩
    obtain ⟨hinput2, hagrees⟩ := List.mem_filter.1 hentry2
    exact ⟨(List.mem_filter.1 hmem).1, hinput2, of_decide_eq_true hagrees⟩
  · rintro ⟨hinput1, hinput2, hagrees⟩
    have hfilter : entry2 ∈ input2.filter (agrees entry1 ·) :=
      List.mem_filter.2 ⟨hinput2, decide_eq_true hagrees⟩
    obtain ⟨m, hm, hentry⟩ :
        ∃ m ∈ entriesOf options entry1 (input2.filter (agrees entry1 ·)),
          m.entry = entry1 ∧ entry2 ∈ m.matches := mem_entriesOf.2 ⟨rfl, hfilter⟩
    refine ⟨m, List.mem_flatMap.2 ⟨entry1, List.mem_filter.2 ⟨hinput1, ?_⟩, hm⟩, hentry⟩
    exact decide_eq_true ⟨entry2, hinput2, hagrees⟩

/-- A join only depends on which items of the inputs agree. -/
theorem IsJoin.congr (h : IsJoin input1 input2 options agrees found)
    (hagrees : ∀ entry1 ∈ input1, ∀ entry2 ∈ input2, agrees entry1 entry2 ↔ agrees' entry1 entry2) :
    IsJoin input1 input2 options agrees' found := by
  have hleft : ∀ entry1 ∈ input1, (∃ entry2 ∈ input2, agrees entry1 entry2) ↔
      ∃ entry2 ∈ input2, agrees' entry1 entry2 := fun entry1 h1 =>
    exists_congr fun entry2 => and_congr_right (hagrees entry1 h1 entry2)
  have hright : ∀ entry2 ∈ input2, (∃ entry1 ∈ input1, agrees entry1 entry2) ↔
      ∃ entry1 ∈ input1, agrees' entry1 entry2 := fun entry2 h2 =>
    exists_congr fun entry1 => and_congr_right fun h1 => hagrees entry1 h1 entry2 h2
  refine ⟨?_, ?_, ?_, ?_⟩
  · rw [h.matched, List.filter_congr fun entry1 h1 => decide_eq_decide.2 (hleft entry1 h1)]
    refine List.flatMap_congr fun entry1 h1 => ?_
    have hmem := (List.mem_filter.1 h1).1
    rw [List.filter_congr fun entry2 h2 => decide_eq_decide.2 (hagrees entry1 hmem entry2 h2)]
  · rw [h.unmatched1, List.filter_congr fun entry1 h1 =>
      decide_eq_decide.2 (not_congr (hleft entry1 h1))]
  · rw [h.matched2, List.filter_congr fun entry2 h2 => decide_eq_decide.2 (hright entry2 h2)]
  · rw [h.unmatched2, List.filter_congr fun entry2 h2 =>
      decide_eq_decide.2 (not_congr (hright entry2 h2))]

end Join

/-! ## The loop -/

/-- The items agree on the pairs that are compared. -/
abbrev AgreeDecisive (rt : ItemRuntime) (fieldsToMatch : List PairToMatch)
    (options : MatchFieldsOptions) (entry1 entry2 : DataItem δ) : Prop :=
  FieldMatching.Agree rt options.disableDotNotation (isEntriesEqual rt options)
    (decisive fieldsToMatch) entry1.json entry2.json

theorem matchesTurn_eq (rt : ItemRuntime) (input2 : List (DataItem δ))
    (fieldsToMatch : List PairToMatch) (hall : options.multipleMatches = .all)
    (loop : MatchesLoop δ) (entry1 : DataItem δ) : matchesTurn rt input2 fieldsToMatch options loop entry1 =
      if ∃ entry2 ∈ input2, AgreeDecisive rt fieldsToMatch options entry1 entry2 then
        { loop with
          matched := loop.matched ++ entriesOf options entry1
            (input2.filter (AgreeDecisive rt fieldsToMatch options entry1 ·))
          matchedInInput2 := loop.matchedInInput2 ++
            (input2.zipIdx.filter fun entry =>
              AgreeDecisive rt fieldsToMatch options entry1 entry.1).map Prod.snd }
      else { loop with unmatched1 := loop.unmatched1 ++ [entry1] } := by
  have hnil : (input2.zipIdx.filter fun entry =>
      AgreeDecisive rt fieldsToMatch options entry1 entry.1) = [] ↔
        ¬ ∃ entry2 ∈ input2, AgreeDecisive rt fieldsToMatch options entry1 entry2 := by
    rw [← List.map_eq_nil_iff (f := Prod.fst),
      map_fst_filter_zipIdx fun entry2 => AgreeDecisive rt fieldsToMatch options entry1 entry2,
      List.filter_eq_nil_iff]
    simp only [decide_eq_true_eq, not_exists, not_and]
  unfold matchesTurn
  rw [hall, foundedMatches_all]
  dsimp only
  by_cases hmatch : ∃ entry2 ∈ input2, AgreeDecisive rt fieldsToMatch options entry1 entry2
  · rw [if_pos hmatch, if_neg (hnil.not.2 (not_not.2 hmatch)),
      map_fst_filter_zipIdx fun entry2 => AgreeDecisive rt fieldsToMatch options entry1 entry2]
  · rw [if_neg hmatch, if_pos (hnil.2 hmatch)]

/-- What the loop has found at its end. -/
theorem matchesLoop (rt : ItemRuntime) (input2 : List (DataItem δ))
    (fieldsToMatch : List PairToMatch) (hall : options.multipleMatches = .all) :
    ∀ (entries : List (DataItem δ)) (loop : MatchesLoop δ),
    (entries.foldl (matchesTurn rt input2 fieldsToMatch options) loop).matched =
        loop.matched ++ (entries.filter fun entry1 =>
          ∃ entry2 ∈ input2, AgreeDecisive rt fieldsToMatch options entry1 entry2).flatMap
            (fun entry1 => entriesOf options entry1
              (input2.filter (AgreeDecisive rt fieldsToMatch options entry1 ·))) ∧
      (entries.foldl (matchesTurn rt input2 fieldsToMatch options) loop).unmatched1 =
        loop.unmatched1 ++ (entries.filter fun entry1 =>
          ¬ ∃ entry2 ∈ input2, AgreeDecisive rt fieldsToMatch options entry1 entry2) ∧
      ∀ i, i ∈ (entries.foldl (matchesTurn rt input2 fieldsToMatch options) loop).matchedInInput2 ↔
        i ∈ loop.matchedInInput2 ∨ ∃ entry1 ∈ entries, ∃ entry2, input2[i]? = some entry2 ∧
          AgreeDecisive rt fieldsToMatch options entry1 entry2
  | [], loop => by
    simp
  | entry1 :: entries, loop => by
    have hturn := matchesTurn_eq rt input2 fieldsToMatch hall loop entry1
    obtain ⟨hmatched, hunmatched, hindexes⟩ :=
      matchesLoop rt input2 fieldsToMatch hall entries
        (matchesTurn rt input2 fieldsToMatch options loop entry1)
    rw [List.foldl_cons, hmatched, hunmatched]
    simp only [List.filter_cons, List.exists_mem_cons_iff]
    by_cases hmatch : ∃ entry2 ∈ input2, AgreeDecisive rt fieldsToMatch options entry1 entry2
    · rw [if_pos hmatch] at hturn
      simp only [hindexes]
      rw [hturn]
      simp only [hmatch, if_true, not_true_eq_false, decide_true, decide_false, Bool.false_eq_true,
        if_false, List.flatMap_cons, List.append_assoc]
      refine ⟨trivial, trivial, fun i => ?_⟩
      rw [List.mem_append, or_assoc]
      refine or_congr_right (or_congr_left ?_)
      simp only [List.mem_map, List.mem_filter, decide_eq_true_eq, Prod.exists,
        List.mem_zipIdx_iff_getElem?, exists_eq_right]
    · have hnone : ∀ i : ℕ, ¬ ∃ entry2, input2[i]? = some entry2 ∧
          AgreeDecisive rt fieldsToMatch options entry1 entry2 := by
        rintro i ⟨entry2, hget, hagree⟩
        exact hmatch ⟨entry2, List.mem_of_getElem? hget, hagree⟩
      rw [if_neg hmatch] at hturn
      simp only [hindexes]
      rw [hturn]
      simp only [hmatch, if_false, not_false_eq_true, decide_true, decide_false,
        Bool.false_eq_true, if_true, List.append_assoc, List.singleton_append]
      refine ⟨trivial, trivial, fun i => ?_⟩
      rw [or_iff_right (hnone i)]

/-- The result is the join on the decisive pairs. -/
theorem findMatches_isJoin (rt : ItemRuntime) (input1 input2 : List (DataItem δ))
    (fieldsToMatch : List PairToMatch) (hall : options.multipleMatches = .all) :
    IsJoin input1 input2 options (AgreeDecisive rt fieldsToMatch options)
      (findMatches rt input1 input2 fieldsToMatch options) := by
  obtain ⟨hmatched, hunmatched, hindexes⟩ :=
    matchesLoop rt input2 fieldsToMatch hall input1 {}
  have hindex : ∀ entry ∈ input2.zipIdx,
      (entry.2 ∈ (input1.foldl (matchesTurn rt input2 fieldsToMatch options) {}).matchedInInput2 ↔
        ∃ entry1 ∈ input1, AgreeDecisive rt fieldsToMatch options entry1 entry.1) := by
    rintro ⟨entry2, i⟩ hentry
    rw [hindexes, or_iff_right List.not_mem_nil]
    rw [List.mem_zipIdx_iff_getElem?] at hentry
    dsimp only at hentry ⊢
    simp only [hentry, Option.some.injEq, exists_eq_left']
  refine ⟨hmatched, hunmatched, ?_, ?_⟩
  · unfold findMatches
    dsimp only
    rw [List.filter_congr fun entry hentry => decide_eq_decide.2 (hindex entry hentry)]
    exact map_fst_filter_zipIdx (fun entry2 => decide (∃ entry1 ∈ input1,
      AgreeDecisive rt fieldsToMatch options entry1 entry2)) input2
  · unfold findMatches
    dsimp only
    rw [List.filter_congr fun entry hentry => decide_eq_decide.2 (not_congr (hindex entry hentry))]
    exact map_fst_filter_zipIdx (fun entry2 => decide (¬ ∃ entry1 ∈ input1,
      AgreeDecisive rt fieldsToMatch options entry1 entry2)) input2

/-! ## Exactness -/

/-- Items that agree on the last pair of each second field agree on the other pairs too. -/
def DecisiveSuffices (rt : ItemRuntime) (input1 input2 : List (DataItem δ))
    (fieldsToMatch : List PairToMatch) (options : MatchFieldsOptions) : Prop :=
  ∀ entry1 ∈ input1, ∀ entry2 ∈ input2, AgreeDecisive rt fieldsToMatch options entry1 entry2 →
    ∀ pair ∈ fieldsToMatch, pair ∉ decisive fieldsToMatch →
      AgreeOn rt options.disableDotNotation (isEntriesEqual rt options) entry1.json entry2.json pair

theorem exactJoin_iff (rt : ItemRuntime) (input1 input2 : List (DataItem δ))
    (fieldsToMatch : List PairToMatch) (options : MatchFieldsOptions)
    (hall : options.multipleMatches = .all) :
    ExactJoin rt input1 input2 fieldsToMatch options
        (findMatches rt input1 input2 fieldsToMatch options) ↔
      DecisiveSuffices rt input1 input2 fieldsToMatch options := by
  have hjoin := findMatches_isJoin rt input1 input2 fieldsToMatch hall
  constructor
  · intro hexact entry1 h1 entry2 h2 hdecisive pair hpair _
    have hpaired := hjoin.paired_iff.2 ⟨h1, h2, hdecisive⟩
    exact (hexact.paired_iff.1 hpaired).2.2 pair hpair
  · intro hsuffices
    refine hjoin.congr fun entry1 h1 entry2 h2 => ⟨fun hdecisive pair hpair => ?_, ?_⟩
    · by_cases hmem : pair ∈ decisive fieldsToMatch
      · exact hdecisive pair hmem
      · exact hsuffices entry1 h1 entry2 h2 hdecisive pair hpair hmem
    · exact fun hagree pair hpair => hagree pair (mem_of_mem_decisive hpair)

/-! ## Two pairs with one second field -/

def asciiItems : ItemRuntime := { asciiRuntime with inherited := fun _ => .undefined }

def exactOptions : MatchFieldsOptions := ⟨false, true, .all, .both, .keepMatches⟩

/-- An item with the properties `a` and `b`. -/
def itemAB (a b : JsValue) : DataItem Unit := ⟨[(units "a", a), (units "b", b)], ()⟩

theorem exactJoin_onePair : ExactJoin asciiItems [itemAB .null (.boolean true)]
    [itemAB (.boolean true) .null] [⟨"b", "a"⟩] exactOptions
    (findMatches asciiItems [itemAB .null (.boolean true)] [itemAB (.boolean true) .null]
      [⟨"b", "a"⟩] exactOptions) :=
  (exactJoin_iff asciiItems _ _ _ exactOptions rfl).2 fun _ _ _ _ _ _ hpair hnot =>
    absurd hpair hnot

/-- Items are paired although they do not agree on the first of two pairs with one second field. -/
theorem not_exactJoin_sharedField : ¬ ExactJoin asciiItems [itemAB .null (.boolean true)]
    [itemAB (.boolean true) .null] [⟨"a", "a"⟩, ⟨"b", "a"⟩] exactOptions
    (findMatches asciiItems [itemAB .null (.boolean true)] [itemAB (.boolean true) .null]
      [⟨"a", "a"⟩, ⟨"b", "a"⟩] exactOptions) := by
  intro hexact
  have hjoin := findMatches_isJoin asciiItems [itemAB .null (.boolean true)]
    [itemAB (.boolean true) .null] [⟨"a", "a"⟩, ⟨"b", "a"⟩]
    (show exactOptions.multipleMatches = .all from rfl)
  have hpaired := hjoin.paired_iff.2
    ⟨List.mem_cons_self, List.mem_cons_self, by decide +kernel⟩
  have hagree := (hexact.paired_iff.1 hpaired).2.2 ⟨"a", "a"⟩ List.mem_cons_self
  exact absurd hagree (by decide +kernel)

end MergeByFields

end N8n
