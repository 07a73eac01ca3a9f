import N8n.CompareDatasets
import N8n.Library.Fallible
import N8n.Proofs.FilterParameter

/-!
# When compared items are sorted rightly and left as they are

The comparison that tolerates differences of type only goes through the fields of the first item,
and a mix is written to the item it is made from.
-/

namespace N8n

namespace CompareDatasets

open FieldMatching

variable {rt : CompareRuntime} {δ : Type} {fieldsToMatch : List PairToMatch}
  {options : CompareOptions} {json : ℕ → Json} {input1 input2 : List (ItemRef δ)}

/-! ## Agreement -/

/-- If the pair is the same as compared, the items agree on the fields that only the second has. -/
def KeysCovered (rt : CompareRuntime) (options : CompareOptions) (json : ℕ → Json)
    (entry matched : ItemRef δ) : Prop :=
  let entryFromInput1 := withoutSkipped rt options (json entry.json)
  let entryFromInput2 := withoutSkipped rt options (json matched.json)
  options.fuzzyCompare = true →
    (∀ key ∈ keysOf entryFromInput1, isEntriesEqual rt options (readValue rt entryFromInput1 key)
      (readValue rt entryFromInput2 key) = true) →
    ∀ key ∈ keysOf entryFromInput2, key ∉ keysOf entryFromInput1 →
      isEntriesEqual rt options (readValue rt entryFromInput1 key)
        (readValue rt entryFromInput2 key) = true

/-- Equal objects have equal values under all their keys. -/
def EqualByKeys (rt : CompareRuntime) : Prop :=
  ∀ value value', rt.isEqual value value' = true →
    ∀ key, key ∈ keysOf value ∨ key ∈ keysOf value' →
      rt.isEqual (readValue rt value key) (readValue rt value' key) = true

theorem agreeOutside_iff (hequal : EqualByKeys rt) (entry matched : ItemRef δ) :
    (judgedSame rt options json entry matched = true → AgreeOutside rt options json entry matched) ↔
      KeysCovered rt options json entry matched := by
  unfold judgedSame isItemsEqual AgreeOutside KeysCovered
  by_cases hfuzzy : options.fuzzyCompare = true
  · simp only [hfuzzy, if_true, List.all_eq_true, forall_const]
    refine forall_congr' fun hsame => ⟨fun hagree key hkey _ => hagree key (.inr hkey), ?_⟩
    intro hcovered key hkey
    by_cases hfirst : key ∈ keysOf (withoutSkipped rt options (json entry.json))
    · exact hsame key hfirst
    · exact hcovered key (hkey.resolve_left hfirst) hfirst
  · have hplain : isEntriesEqual rt options = rt.isEqual := by
      funext value value'
      unfold isEntriesEqual fuzzyCompare
      rw [if_pos (by simpa using hfuzzy)]
    rw [if_neg hfuzzy, hplain]
    exact iff_of_true (hequal _ _) fun h => absurd h hfuzzy

/-! ## Writes -/

def Harmless (writes : List (Json × Json)) : Prop := ∀ write ∈ writes, write.1 = write.2

/-- What is written for a field of a mix is there already. -/
def FieldThere (rt : CompareRuntime) (options : CompareOptions) (json : ℕ → Json)
    (entry matched : ItemRef δ) (field : String) : Prop :=
  assignField rt json entry matched field = json entry.json ∧
    (options.disableDotNotation = false → setField rt json entry matched field = json entry.json)

theorem json_write_self {s : Store} {ref : ℕ} {written : Json} (h : written = s.json ref) :
    (s.write ref written).json = s.json := by
  rw [h]
  exact Function.update_eq_self ref s.json

theorem harmless_write {s : Store} {ref : ℕ} {written : Json} :
    Harmless (s.write ref written).writes ↔ Harmless s.writes ∧ written = s.json ref := by
  unfold Harmless Store.write
  rw [List.forall_mem_append, List.forall_mem_singleton]
  exact and_congr_right fun _ => eq_comm

theorem combineField_harmless (entry matched : ItemRef δ) {s : Store} (hs : s.json = json)
    (field : String) :
    (Harmless (combineField rt options entry matched s field).writes ↔
      Harmless s.writes ∧ FieldThere rt options json entry matched field) ∧
    (FieldThere rt options json entry matched field →
      (combineField rt options entry matched s field).json = json) := by
  subst hs
  unfold combineField FieldThere
  dsimp only
  by_cases hfirst : assignField rt s.json entry matched field = s.json entry.json
  · have hjson := json_write_self hfirst
    split_ifs with hdots
    · rw [harmless_write, harmless_write, hjson]
      refine ⟨⟨fun h => ⟨h.1.1, hfirst, fun hset => ?_⟩, fun h => ⟨⟨h.1, hfirst⟩, hfirst⟩⟩,
        fun _ => ?_⟩
      · exact Bool.noConfusion (hdots.symm.trans hset)
      · rw [json_write_self (by rw [hjson, hfirst]), hjson]
    · rw [harmless_write, harmless_write, hjson]
      have hset := Bool.eq_false_iff.2 hdots
      refine ⟨⟨fun h => ⟨h.1.1, hfirst, fun _ => h.2⟩, fun h => ⟨⟨h.1, hfirst⟩, h.2.2 hset⟩⟩,
        fun h => ?_⟩
      rw [json_write_self (by rw [hjson, h.2 hset]), hjson]
  · refine ⟨iff_of_false (fun h => ?_) fun h => hfirst h.2.1, fun h => absurd h.1 hfirst⟩
    split_ifs at h <;> exact hfirst (harmless_write.1 (harmless_write.1 h).1).2

/-- Later writes do not make up for earlier ones. -/
theorem harmless_of_foldl (entry matched : ItemRef δ) : ∀ (fields : List String) {s : Store},
    Harmless (fields.foldl (combineField rt options entry matched) s).writes → Harmless s.writes
  | [], _, h => h
  | field :: fields, s, h => by
    have hfirst := harmless_of_foldl entry matched fields h
    unfold combineField at hfirst
    dsimp only at hfirst
    split_ifs at hfirst <;> exact (harmless_write.1 (harmless_write.1 hfirst).1).1

theorem combineFields_harmless (entry matched : ItemRef δ) : ∀ (fields : List String) {s : Store},
    s.json = json →
    (Harmless (fields.foldl (combineField rt options entry matched) s).writes ↔
      Harmless s.writes ∧ ∀ field ∈ fields, FieldThere rt options json entry matched field) ∧
    ((∀ field ∈ fields, FieldThere rt options json entry matched field) →
      (fields.foldl (combineField rt options entry matched) s).json = json)
  | [], s, hs => by
    simpa using hs
  | field :: fields, s, hs => by
    obtain ⟨hharmless, hjson⟩ :
        (Harmless (combineField rt options entry matched s field).writes ↔ _) ∧ _ :=
      combineField_harmless entry matched hs field
    rw [List.foldl_cons, List.forall_mem_cons]
    by_cases hthere : FieldThere rt options json entry matched field
    · obtain ⟨hrest, hjson'⟩ := combineFields_harmless entry matched fields (hjson hthere)
      rw [hrest, hharmless, and_iff_left hthere]
      exact ⟨and_congr_right fun _ => (and_iff_right hthere).symm, fun h => hjson' h.2⟩
    · refine ⟨iff_of_false (fun h => ?_) fun h => hthere h.2.1, fun h => absurd h.1 hthere⟩
      exact hthere (hharmless.1 (harmless_of_foldl entry matched fields h)).2

/-! ## One pair -/

/-- Where the pair is mixed, what is written is there already. -/
def MixHarmless (rt : CompareRuntime) (options : CompareOptions) (json : ℕ → Json)
    (entry matched : ItemRef δ) : Prop :=
  options.resolve = .mix → judgedSame rt options json entry matched = false →
    ∀ field ∈ options.exceptFields, FieldThere rt options json (preferred options entry matched).1
      (preferred options entry matched).2 field

theorem compareMatch_ok {entry matched : ItemRef δ} {c c' : Comparison δ}
    (h : compareMatch rt fieldsToMatch options entry c matched = .ok c') :
    c'.same = c.same ∧
      ((judgedSame rt options c.store.json entry matched = true ∧ c'.store = c.store ∧
        c'.entryCopy = some (c.entryCopy.getD (sameItem options entry matched)) ∧
        c'.different = c.different) ∨
      (judgedSame rt options c.store.json entry matched = false ∧
        c'.store = (if options.resolve = .mix then combineItems rt options entry matched c.store
          else c.store) ∧
        c'.entryCopy = c.entryCopy ∧
        ∃ different, differentEntry rt fieldsToMatch options c.store.json entry matched =
          .ok different ∧ c'.different = c.different ++ [different])) := by
  unfold compareMatch at h
  cases hjudged : judgedSame rt options c.store.json entry matched with
  | true =>
    rw [hjudged, if_pos rfl] at h
    obtain rfl := Except.ok.inj h
    exact ⟨rfl, .inl ⟨rfl, rfl, rfl, rfl⟩⟩
  | false =>
    rw [hjudged, if_neg Bool.false_ne_true] at h
    cases hdifferent : differentEntry rt fieldsToMatch options c.store.json entry matched with
    | error e =>
      rw [hdifferent] at h
      cases h
    | ok different =>
      rw [hdifferent] at h
      obtain rfl := Except.ok.inj h
      exact ⟨rfl, .inr ⟨rfl, rfl, rfl, different, rfl, rfl⟩⟩

theorem harmless_of_compareMatch {entry matched : ItemRef δ} {c c' : Comparison δ}
    (h : compareMatch rt fieldsToMatch options entry c matched = .ok c')
    (hharmless : Harmless c'.store.writes) : Harmless c.store.writes := by
  obtain ⟨-, ⟨-, hstore, -⟩ | ⟨-, hstore, -⟩⟩ := compareMatch_ok h
  · rwa [hstore] at hharmless
  · rw [hstore] at hharmless
    split_ifs at hharmless
    · exact harmless_of_foldl _ _ _ hharmless
    · exact hharmless

/-- A pair leaves the items as they are just if its mix does. -/
theorem compareMatch_store {entry matched : ItemRef δ} {c c' : Comparison δ}
    (h : compareMatch rt fieldsToMatch options entry c matched = .ok c')
    (hc : c.store.json = json) :
    (Harmless c'.store.writes ↔
      Harmless c.store.writes ∧ MixHarmless rt options json entry matched) ∧
    (MixHarmless rt options json entry matched → c'.store.json = json) := by
  obtain ⟨-, ⟨hjudged, hstore, -⟩ | ⟨hjudged, hstore, -⟩⟩ := compareMatch_ok h <;>
    rw [hc] at hjudged
  · have hmix : MixHarmless rt options json entry matched :=
      fun _ hdiffer => Bool.noConfusion (hjudged.symm.trans hdiffer)
    rw [hstore]
    exact ⟨(and_iff_left hmix).symm, fun _ => hc⟩
  · rw [hstore]
    by_cases hmix : options.resolve = .mix
    · have hfields (entry' matched' : ItemRef δ) :
          (Harmless (options.exceptFields.foldl (combineField rt options entry' matched')
            c.store).writes ↔ _) ∧ _ :=
        combineFields_harmless entry' matched' options.exceptFields hc
      rw [if_pos hmix]
      unfold MixHarmless
      simp only [hmix, hjudged, forall_const]
      exact hfields _ _
    · have hnone : MixHarmless rt options json entry matched := fun h => absurd h hmix
      rw [if_neg hmix]
      exact ⟨(and_iff_left hnone).symm, fun _ => hc⟩

/-! ## The loops -/

theorem harmless_of_compareMatches (entry : ItemRef δ) : ∀ {items : List (ItemRef δ)}
    {c c' : Comparison δ}, items.foldlM (compareMatch rt fieldsToMatch options entry) c = .ok c' →
    Harmless c'.store.writes → Harmless c.store.writes
  | [], _, _, h, hharmless => by
    obtain rfl := Except.ok.inj h
    exact hharmless
  | matched :: items, _, _, h, hharmless => by
    rw [List.foldlM_cons] at h
    obtain ⟨c₁, hfirst, h⟩ := Fallible.bind_eq_ok.1 h
    exact harmless_of_compareMatch hfirst (harmless_of_compareMatches entry h hharmless)

/-- What the matches of one entry add. -/
theorem compareMatches (entry : ItemRef δ) : ∀ {items : List (ItemRef δ)} {c c' : Comparison δ},
    items.foldlM (compareMatch rt fieldsToMatch options entry) c = .ok c' → c.store.json = json →
    (Harmless c'.store.writes ↔ Harmless c.store.writes ∧
      ∀ matched ∈ items, MixHarmless rt options json entry matched) ∧
    ((∀ matched ∈ items, MixHarmless rt options json entry matched) →
      c'.store.json = json ∧ c'.same = c.same ∧
      c'.entryCopy = c.entryCopy.or
        ((items.find? (judgedSame rt options json entry)).map (sameItem options entry)) ∧
      ∃ different, (items.filter (!judgedSame rt options json entry ·)).mapM
        (differentEntry rt fieldsToMatch options json entry) = .ok different ∧
        c'.different = c.different ++ different)
  | [], c, c', h, hc => by
    obtain rfl := Except.ok.inj h
    simp only [List.not_mem_nil, false_imp_iff, implies_true, and_true, true_and, forall_const]
    exact ⟨hc, (Option.or_none).symm, [], rfl, (List.append_nil _).symm⟩
  | matched :: items, c, c', h, hc => by
    rw [List.foldlM_cons] at h
    obtain ⟨c₁, hfirst, h⟩ := Fallible.bind_eq_ok.1 h
    obtain ⟨hharmless, hjson⟩ := compareMatch_store hfirst hc
    rw [List.forall_mem_cons]
    by_cases hmix : MixHarmless rt options json entry matched
    · obtain ⟨hrest, houtputs⟩ := compareMatches entry h (hjson hmix)
      rw [hrest, hharmless, and_iff_left hmix]
      refine ⟨and_congr_right fun _ => (and_iff_right hmix).symm, fun hall => ?_⟩
      obtain ⟨hjson', hsame, hcopy, different, hdifferent, hpushed⟩ := houtputs hall.2
      obtain ⟨hsame₁, hstep⟩ := compareMatch_ok hfirst
      rw [hc] at hstep
      refine ⟨hjson', hsame.trans hsame₁, ?_⟩
      rcases hstep with ⟨hjudged, -, hcopy₁, hpushed₁⟩ | ⟨hjudged, -, hcopy₁, d, hd, hpushed₁⟩
      · rw [List.find?_cons_of_pos hjudged, List.filter_cons_of_neg (by simp [hjudged]), hcopy,
          hcopy₁]
        refine ⟨?_, different, hdifferent, by rw [hpushed, hpushed₁]⟩
        cases c.entryCopy <;> rfl
      · rw [List.find?_cons_of_neg (by simp [hjudged]), List.filter_cons_of_pos (by simp [hjudged]),
          hcopy, hcopy₁]
        refine ⟨rfl, d :: different, ?_, by rw [hpushed, hpushed₁, List.append_assoc]; rfl⟩
        rw [List.mapM_cons, hd, hdifferent]
        rfl
    · refine ⟨iff_of_false (fun hlast => ?_) fun hlast => hmix hlast.2.1,
        fun hall => absurd hall.1 hmix⟩
      refine hmix (hharmless.1 ?_).2
      exact harmless_of_compareMatches entry h hlast

theorem compareEntry_eq_ok {entryMatches : ItemRef δ × List (ItemRef δ)} {c c' : Comparison δ} :
    compareEntry rt fieldsToMatch options c entryMatches = .ok c' ↔
      ∃ c₁, entryMatches.2.foldlM (compareMatch rt fieldsToMatch options entryMatches.1)
          { c with entryCopy := none } = .ok c₁ ∧
        { c₁ with same := c₁.same ++ c₁.entryCopy.toList } = c' :=
  Fallible.map_eq_ok

theorem harmless_of_compareEntries : ∀ {entries : List (ItemRef δ × List (ItemRef δ))}
    {c c' : Comparison δ}, entries.foldlM (compareEntry rt fieldsToMatch options) c = .ok c' →
    Harmless c'.store.writes → Harmless c.store.writes
  | [], _, _, h, hharmless => by
    obtain rfl := Except.ok.inj h
    exact hharmless
  | entry :: entries, _, _, h, hharmless => by
    rw [List.foldlM_cons] at h
    obtain ⟨_, hfirst, h⟩ := Fallible.bind_eq_ok.1 h
    obtain ⟨c₁, hmatches, rfl⟩ := compareEntry_eq_ok.1 hfirst
    have hlast : Harmless c₁.store.writes := (harmless_of_compareEntries h hharmless :)
    exact (harmless_of_compareMatches entry.1 hmatches hlast :)

/-- The pairs of an entry that differ. -/
def differingPairs (rt : CompareRuntime) (options : CompareOptions) (json : ℕ → Json)
    (entry : ItemRef δ) (items : List (ItemRef δ)) : List (ItemRef δ × ItemRef δ) :=
  (items.filter (!judgedSame rt options json entry ·)).map (entry, ·)

/-- What is pushed for an entry if one of its pairs is the same. -/
def sameOf (rt : CompareRuntime) (options : CompareOptions) (json : ℕ → Json)
    (entry : ItemRef δ) (items : List (ItemRef δ)) : List (ItemRef δ) :=
  ((items.find? (judgedSame rt options json entry)).map (sameItem options entry)).toList

/-- What all entries add. -/
theorem compareEntries : ∀ {entries : List (ItemRef δ × List (ItemRef δ))} {c c' : Comparison δ},
    entries.foldlM (compareEntry rt fieldsToMatch options) c = .ok c' → c.store.json = json →
    (Harmless c'.store.writes ↔ Harmless c.store.writes ∧
      ∀ entry ∈ entries, ∀ matched ∈ entry.2, MixHarmless rt options json entry.1 matched) ∧
    ((∀ entry ∈ entries, ∀ matched ∈ entry.2, MixHarmless rt options json entry.1 matched) →
      c'.same = c.same ++ entries.flatMap (fun entry => sameOf rt options json entry.1 entry.2) ∧
      ∃ different,
        (entries.flatMap fun entry => differingPairs rt options json entry.1 entry.2).mapM
          (fun pair => differentEntry rt fieldsToMatch options json pair.1 pair.2) =
            .ok different ∧ c'.different = c.different ++ different)
  | [], c, c', h, _ => by
    obtain rfl := Except.ok.inj h
    simp only [List.not_mem_nil, false_imp_iff, implies_true, and_true, true_and, forall_const,
      List.flatMap_nil, List.append_nil]
    exact ⟨[], rfl, (List.append_nil _).symm⟩
  | entry :: entries, c, c', h, hc => by
    rw [List.foldlM_cons] at h
    obtain ⟨_, hfirst, h⟩ := Fallible.bind_eq_ok.1 h
    obtain ⟨c₁, hmatches, rfl⟩ := compareEntry_eq_ok.1 hfirst
    obtain ⟨hharmless, houtputs⟩ := compareMatches entry.1 hmatches hc
    rw [List.forall_mem_cons]
    by_cases hmix : ∀ matched ∈ entry.2, MixHarmless rt options json entry.1 matched
    · obtain ⟨hjson, hsame, hcopy, different, hdifferent, hpushed⟩ := houtputs hmix
      obtain ⟨hrest, houtputs'⟩ := compareEntries h hjson
      rw [hrest, hharmless, and_iff_left hmix]
      refine ⟨and_congr_right fun _ => (and_iff_right hmix).symm, fun hall => ?_⟩
      obtain ⟨hsame', different', hdifferent', hpushed'⟩ := houtputs' hall.2
      constructor
      · rw [hsame', hsame, hcopy, List.flatMap_cons, List.append_assoc]
        rfl
      · have hpairs : (differingPairs rt options json entry.1 entry.2).mapM (fun pair =>
            differentEntry rt fieldsToMatch options json pair.1 pair.2) = .ok different := by
          unfold differingPairs
          rw [List.mapM_map]
          exact hdifferent
        rw [List.flatMap_cons]
        refine ⟨different ++ different', Fallible.mapM_append_eq_ok hpairs hdifferent', ?_⟩
        rw [hpushed', hpushed, List.append_assoc]
    · refine ⟨iff_of_false (fun hlast => ?_) fun hlast => hmix hlast.2.1,
        fun hall => absurd hall.1 hmix⟩
      have hfirst : Harmless c₁.store.writes := (harmless_of_compareEntries h hlast :)
      exact hmix (hharmless.1 hfirst).2

/-! ## The outputs -/

/-- Items without matches add nothing. -/
theorem flatMap_matched {α : Type} (f : ItemRef δ → List (ItemRef δ) → List α)
    (hf : ∀ entry, f entry [] = []) (found : ItemRef δ → List (ItemRef δ × ℕ)) :
    ∀ entries : List (ItemRef δ),
      (((entries.filter (found · ≠ [])).map fun entry => (entry, (found entry).map Prod.fst)).flatMap
        fun entry => f entry.1 entry.2) =
      entries.flatMap fun entry => f entry ((found entry).map Prod.fst)
  | [] => rfl
  | entry :: entries => by
    rw [List.flatMap_cons, ← flatMap_matched f hf found entries]
    by_cases hfound : found entry = []
    · rw [List.filter_cons_of_neg (by simpa using hfound), hfound, List.map_nil, hf,
        List.nil_append]
    · rw [List.filter_cons_of_pos (by simpa using hfound), List.map_cons, List.flatMap_cons]

theorem forall_matched (P : ItemRef δ → ItemRef δ → Prop)
    (found : ItemRef δ → List (ItemRef δ × ℕ)) (entries : List (ItemRef δ)) :
    (∀ entry ∈ (entries.filter (found · ≠ [])).map fun entry => (entry, (found entry).map Prod.fst),
        ∀ matched ∈ entry.2, P entry.1 matched) ↔
      ∀ entry ∈ entries, ∀ matched ∈ (found entry).map Prod.fst, P entry matched := by
  constructor
  · intro h entry hentry matched hmatched
    have hfound : found entry ≠ [] := by
      intro hnil
      rw [hnil] at hmatched
      exact absurd hmatched List.not_mem_nil
    exact h _ (List.mem_map_of_mem (List.mem_filter.2 ⟨hentry, decide_eq_true hfound⟩)) matched
      hmatched
  · intro h _ hmem matched hmatched
    obtain ⟨entry, hentry, rfl⟩ := List.mem_map.1 hmem
    exact h entry (List.mem_filter.1 hentry).1 matched hmatched

/-- Each matched pair is safe: the comparison covers the fields of both items, and a mix writes what
is there already. -/
def SortsSafely (rt : CompareRuntime) (fieldsToMatch : List PairToMatch) (options : CompareOptions)
    (json : ℕ → Json) (input1 input2 : List (ItemRef δ)) : Prop :=
  ∀ entry ∈ input1, ∀ matched ∈ matchedWith rt fieldsToMatch options json input2 entry,
    KeysCovered rt options json entry matched ∧ MixHarmless rt options json entry matched

theorem classifies_iff (rt : CompareRuntime) (fieldsToMatch : List PairToMatch)
    (options : CompareOptions) (json : ℕ → Json) (input1 input2 : List (ItemRef δ))
    (hequal : EqualByKeys rt) {found : Outputs δ × Store}
    (h : findMatches rt fieldsToMatch options json input1 input2 = .ok found) :
    Classifies rt fieldsToMatch options json input1 input2 found ↔
      SortsSafely rt fieldsToMatch options json input1 input2 := by
  unfold findMatches at h
  split at h
  · cases h
  obtain ⟨c, hloop, rfl⟩ := Fallible.map_eq_ok.1 h
  have hjson : (Comparison.store (δ := δ) { store := { json } }).json = json := rfl
  obtain ⟨hharmless, houtputs⟩ := compareEntries hloop hjson
  have hmixes := forall_matched (MixHarmless rt options json)
    (matchesOf rt fieldsToMatch options json input2) input1
  have hstart : Harmless (Comparison.store (δ := δ) { store := { json } }).writes :=
    List.forall_mem_nil _
  rw [hmixes, and_iff_right hstart] at hharmless
  rw [hmixes] at houtputs
  constructor
  · intro hclassifies entry hentry matched hmatched
    have hagree := hclassifies.agree entry hentry matched hmatched
    exact ⟨(agreeOutside_iff hequal entry matched).1 hagree,
      hharmless.1 hclassifies.unmodified entry hentry matched hmatched⟩
  · intro hsafe
    obtain ⟨hsame, different, hdifferent, hpushed⟩ :=
      houtputs fun entry hentry matched hmatched => (hsafe entry hentry matched hmatched).2
    rw [flatMap_matched (sameOf rt options json) (fun _ => rfl), List.nil_append] at hsame
    rw [flatMap_matched (differingPairs rt options json) (fun _ => rfl)] at hdifferent
    rw [List.nil_append] at hpushed
    refine ⟨fun entry hentry matched hmatched => ?_, hsame, ?_, ?_, ?_, ?_⟩
    · exact (agreeOutside_iff hequal entry matched).2 (hsafe entry hentry matched hmatched).1
    · dsimp only
      rw [hpushed]
      exact hdifferent
    · refine List.filter_congr fun entry _ => decide_eq_decide.2 ?_
      exact List.map_eq_nil_iff.symm
    · refine congrArg (List.map Prod.fst) (List.filter_congr fun entry _ => decide_eq_decide.2 ?_)
      rw [List.mem_flatMap]
      push Not
      rfl
    · exact hharmless.2 fun entry hentry matched hmatched =>
        (hsafe entry hentry matched hmatched).2

/-! ## Two items -/

/-- The library on names without dots. -/
def plainCompare : CompareRuntime :=
  { asciiRuntime with
    inherited := fun _ => .undefined
    set := fun value _ _ => value
    unset := fun value field =>
      match value with
      | .object properties => .object (properties.filter (·.1 ≠ units field))
      | value => value }

theorem equalByKeys_plainCompare : EqualByKeys plainCompare := by
  intro value value' hequal key hkey
  change value.same value' = true at hequal
  cases value <;> cases value' <;>
    first
      | exact Bool.noConfusion hequal
      | exact absurd hkey (by simp [keysOf])

def compareOptions (fuzzyCompare : Bool) (resolve : Resolve) : CompareOptions where
  fuzzyCompare
  nodeVersion := 2
  disableDotNotation := true
  multipleMatches := .first
  skipFields := [""]
  resolve
  preferInput1 := true
  exceptFields := []

/-- Two objects with `a`; the second has `b` too. -/
def twoObjects : ℕ → Json
  | 0 => [(units "a", .boolean true)]
  | _ => [(units "a", .boolean true), (units "b", .boolean true)]

theorem classifies_extraField : ∃ found,
    findMatches plainCompare [⟨"a", "a"⟩] (compareOptions false .preferInput1) twoObjects
      [⟨0, ()⟩] [⟨1, ()⟩] = .ok found ∧
    Classifies plainCompare [⟨"a", "a"⟩] (compareOptions false .preferInput1) twoObjects
      [⟨0, ()⟩] [⟨1, ()⟩] found := by
  refine ⟨_, rfl, (classifies_iff plainCompare _ _ twoObjects _ _ equalByKeys_plainCompare rfl).2 ?_⟩
  intro _ _ _ _
  exact ⟨fun hfuzzy => Bool.noConfusion hfuzzy, fun hmix => by cases hmix⟩

/-- A field of the second item only is not looked at where differences of type are tolerated. -/
theorem not_classifies_extraField : ∃ found,
    findMatches plainCompare [⟨"a", "a"⟩] (compareOptions true .preferInput1) twoObjects
      [⟨0, ()⟩] [⟨1, ()⟩] = .ok found ∧
    ¬ Classifies plainCompare [⟨"a", "a"⟩] (compareOptions true .preferInput1) twoObjects
      [⟨0, ()⟩] [⟨1, ()⟩] found := by
  refine ⟨_, rfl, fun hclassifies => ?_⟩
  have hmatched : (⟨1, ()⟩ : ItemRef Unit) ∈ matchedWith plainCompare [⟨"a", "a"⟩]
      (compareOptions true .preferInput1) twoObjects [⟨1, ()⟩] ⟨0, ()⟩ := by
    exact List.mem_cons_self
  have hagree := hclassifies.agree ⟨0, ()⟩ List.mem_cons_self ⟨1, ()⟩ hmatched (by decide +kernel)
  exact absurd (hagree (units "b") (.inr (by decide +kernel))) (by decide +kernel)

end CompareDatasets

end N8n
