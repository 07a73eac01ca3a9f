import Mathlib.Data.List.Forall2
import N8n.DataTableRows
import N8n.Library.Wildcards

/-!
# Which rows a query selects

Every condition is complete in itself, being one comparison or in parentheses. Joined by `AND` all of
them must hold. After a disjunction the search is read together with its last filter alone, so the
filters before let rows through that do not contain the term.
-/

namespace N8n

open Precedence

variable {ν ρ : Type} {value : Comparison ν → ρ → Option Bool} {row : ρ}

theorem satisfies_of_parse {condition : Condition ν} {e : Expr (Comparison ν)}
    (h : parse condition = some e) :
    Satisfies value condition row ↔ e.Holds (value · row = some true) := by
  unfold Satisfies
  rw [h]
  simp only [Option.some.injEq, exists_eq_left', truth_eq_true]

theorem satisfies_iff {condition : Condition ν} {e : Expr (Comparison ν)}
    (h : Reads condition e) : Satisfies value condition row ↔ e.Holds (value · row = some true) :=
  satisfies_of_parse h.parse

/-! ## Conditions that are complete in themselves -/

def Complete (condition : Condition ν) : Prop := ∃ e, Reads condition e

theorem complete_atom (c : Comparison ν) : Complete [.atom c] := ⟨_, reads_atom c⟩

/-- The expressions of conditions that are complete. -/
theorem exists_exprs : ∀ {conditions : List (Condition ν)}, (∀ c ∈ conditions, Complete c) →
    ∃ es, List.Forall₂ Reads conditions es
  | [], _ => ⟨[], .nil⟩
  | c :: cs, h => by
    obtain ⟨e, he⟩ := h c List.mem_cons_self
    obtain ⟨es, hes⟩ := exists_exprs fun d hd => h d (List.mem_cons_of_mem c hd)
    exact ⟨e :: es, .cons he hes⟩

theorem exists_satisfies_iff {conditions : List (Condition ν)} {es : List (Expr (Comparison ν))}
    (h : List.Forall₂ Reads conditions es) : (∃ c ∈ conditions, Satisfies value c row) ↔
      ∃ e ∈ es, e.Holds (value · row = some true) := by
  induction h with
  | nil => simp
  | cons he _ ih => rw [List.exists_mem_cons_iff, List.exists_mem_cons_iff, ih, satisfies_iff he]

theorem forall_satisfies_iff {conditions : List (Condition ν)} {es : List (Expr (Comparison ν))}
    (h : List.Forall₂ Reads conditions es) : (∀ c ∈ conditions, Satisfies value c row) ↔
      ∀ e ∈ es, e.Holds (value · row = some true) := by
  induction h with
  | nil => simp
  | cons he _ ih => rw [List.forall_mem_cons, List.forall_mem_cons, ih, satisfies_iff he]

/-- Conditions added with one connective. -/
def clauses (k : Connective) (conditions : List (Condition ν)) : List (Clause (Comparison ν)) :=
  conditions.map fun condition => ⟨k, condition⟩

theorem forall₂_clauses (k : Connective) {conditions : List (Condition ν)}
    {es : List (Expr (Comparison ν))} (h : List.Forall₂ Reads conditions es) :
    List.Forall₂ (fun c e => c.connective = e.1 ∧ Reads c.tokens e.2) (clauses k conditions)
      (es.map fun e => (k, e)) := by
  unfold clauses
  rw [List.forall₂_map_left_iff, List.forall₂_map_right_iff]
  exact h.imp fun _ _ he => ⟨rfl, he⟩

/-- What is read of conditions added with one connective after the first. -/
def feedAll (k : Connective) (e : Expr (Comparison ν)) (es : List (Expr (Comparison ν))) :
    Frame (Comparison ν) :=
  es.foldl (fun f e => f.feed k e) (({} : Frame (Comparison ν)).operand e)

theorem foldl_feedAll (k : Connective) (e : Expr (Comparison ν))
    (es : List (Expr (Comparison ν))) :
    (es.map fun e => (k, e)).foldl (fun f e => f.feed e.1 e.2)
      (({} : Frame (Comparison ν)).operand e) = feedAll k e es :=
  List.foldl_map

theorem isSome_feedAll (k : Connective) (e : Expr (Comparison ν))
    (es : List (Expr (Comparison ν))) : (feedAll k e es).ands.isSome := by
  rw [← foldl_feedAll]
  exact Frame.isSome_foldl rfl

theorem held_operand (p : Comparison ν → Prop) (e : Expr (Comparison ν)) :
    (({} : Frame (Comparison ν)).operand e).Held p ↔ e.Holds p := by
  simp [Frame.Held, Frame.OrsHold, Frame.AndsHold, Frame.operand]

/-- A disjunction in parentheses. -/
theorem reads_ors {c : Condition ν} {cs : List (Condition ν)} (h : ∀ d ∈ c :: cs, Complete d) :
    ∃ e es g, List.Forall₂ Reads (c :: cs) (e :: es) ∧ (feedAll .or e es).close = some g ∧
      Reads (.lpar :: join (clauses .or (c :: cs)) ++ [.rpar]) g := by
  obtain ⟨_, hes⟩ := exists_exprs h
  cases hes with
  | @cons _ e _ es he hes =>
    obtain ⟨g, hg⟩ := Frame.exists_close (isSome_feedAll .or e es)
    refine ⟨e, es, g, .cons he hes, hg, ?_⟩
    exact reads_group (c := ⟨.or, c⟩) he (forall₂_clauses .or hes)
      ((congrArg Frame.close (foldl_feedAll .or e es)).trans hg)

theorem complete_ors (c : Condition ν) (cs : List (Condition ν)) (h : ∀ d ∈ c :: cs, Complete d) :
    Complete (.lpar :: join (clauses .or (c :: cs)) ++ [.rpar]) := by
  obtain ⟨_, _, g, -, -, hg⟩ := reads_ors h
  exact ⟨g, hg⟩

theorem satisfies_ors {c : Condition ν} {cs : List (Condition ν)}
    (h : ∀ d ∈ c :: cs, Complete d) :
    Satisfies value (.lpar :: join (clauses .or (c :: cs)) ++ [.rpar]) row ↔
      ∃ d ∈ c :: cs, Satisfies value d row := by
  obtain ⟨e, es, g, hes, hclose, hg⟩ := reads_ors h
  rw [satisfies_iff hg, exists_satisfies_iff hes, Frame.holds_close _ _ hclose]
  change (feedAll .or e es).Held _ ↔ _
  rw [feedAll, Frame.held_feed_ors _ rfl, held_operand, List.exists_mem_cons_iff]

theorem complete_getConditionAndParams (filter : DataTableFilterRecord ν) (index : ℕ)
    (dbType : DbType) (tableReference : Option String) :
    Complete (getConditionAndParams filter index dbType tableReference) := by
  unfold getConditionAndParams
  cases filter.condition with
  | eq v => cases v <;> exact complete_atom _
  | neq v =>
    cases v with
    | none => exact complete_atom _
    | some v =>
      refine complete_ors [.atom _] [[.atom _]] fun d hd => ?_
      simp only [List.mem_cons, List.not_mem_nil, or_false] at hd
      rcases hd with rfl | rfl <;> exact complete_atom _
  | gt v => exact complete_atom _
  | gte v => exact complete_atom _
  | lt v => exact complete_atom _
  | lte v => exact complete_atom _
  | like v => exact complete_atom _
  | ilike v => exact complete_atom _

/-! ## Clauses -/

theorem satisfies_join {k : Connective} {c : Condition ν} {cs : List (Condition ν)}
    {e : Expr (Comparison ν)} {es : List (Expr (Comparison ν))}
    (h : List.Forall₂ Reads (c :: cs) (e :: es)) :
    Satisfies value (join (clauses k (c :: cs))) row ↔
      (feedAll k e es).Held (value · row = some true) := by
  cases h with
  | cons he hes =>
    obtain ⟨g, hg⟩ := Frame.exists_close (isSome_feedAll k e es)
    have hparse : parse (join (clauses k (c :: cs))) = some g := by
      rw [← hg, ← foldl_feedAll]
      exact parse_join (c := ⟨k, c⟩) he (forall₂_clauses k hes)
    rw [satisfies_of_parse hparse]
    exact Frame.holds_close _ _ hg

theorem satisfies_ands {c : Condition ν} {cs : List (Condition ν)}
    (h : ∀ d ∈ c :: cs, Complete d) :
    Satisfies value (join (clauses .and (c :: cs))) row ↔
      ∀ d ∈ c :: cs, Satisfies value d row := by
  obtain ⟨_, hes⟩ := exists_exprs h
  cases hes with
  | @cons _ e _ es he hes =>
    rw [satisfies_join (.cons he hes), forall_satisfies_iff (.cons he hes)]
    obtain ⟨hors, hands, -⟩ := Frame.feed_ands (value · row = some true) es
      (f := ({} : Frame (Comparison ν)).operand e) rfl
    unfold Frame.Held feedAll
    rw [hors, hands]
    simp [Frame.OrsHold, Frame.AndsHold, Frame.operand]

theorem satisfies_join_ors {c : Condition ν} {cs : List (Condition ν)}
    (h : ∀ d ∈ c :: cs, Complete d) :
    Satisfies value (join (clauses .or (c :: cs))) row ↔
      ∃ d ∈ c :: cs, Satisfies value d row := by
  obtain ⟨_, hes⟩ := exists_exprs h
  cases hes with
  | cons he hes =>
    rw [satisfies_join (.cons he hes), exists_satisfies_iff (.cons he hes), feedAll,
      Frame.held_feed_ors _ rfl, held_operand, List.exists_mem_cons_iff]

/-- A condition added with `AND` after a disjunction is read with the last of it. -/
theorem satisfies_ors_and {c last s : Condition ν} {init : List (Condition ν)}
    (h : ∀ d ∈ c :: init, Complete d) (hlast : Complete last) (hs : Complete s) :
    Satisfies value (join (clauses .or (c :: init ++ [last]) ++ [⟨.and, s⟩])) row ↔
      (∃ d ∈ c :: init, Satisfies value d row) ∨
        (Satisfies value last row ∧ Satisfies value s row) := by
  obtain ⟨_, hes⟩ := exists_exprs h
  obtain ⟨el, hel⟩ := hlast
  obtain ⟨es', hes'⟩ := hs
  cases hes with
  | @cons _ e _ es he hes =>
    have hfold := forall₂_clauses .or hes
    have hreads : List.Forall₂ (fun c e => c.connective = e.1 ∧ Reads c.tokens e.2)
        (clauses .or (init ++ [last]) ++ [⟨.and, s⟩])
        ((es.map fun e => (Connective.or, e)) ++ [(.or, el), (.and, es')]) := by
      have hclauses : clauses .or (init ++ [last]) ++ [⟨.and, s⟩] =
          clauses .or init ++ [⟨.or, last⟩, ⟨.and, s⟩] := by
        simp [clauses]
      rw [hclauses]
      exact List.rel_append hfold (.cons ⟨rfl, hel⟩ (.cons ⟨rfl, hes'⟩ .nil))
    have hread := parse_join (c := ⟨.or, c⟩) he hreads
    rw [List.foldl_append, foldl_feedAll] at hread
    have hsome := isSome_feedAll .or e es
    obtain ⟨g, hg⟩ := Frame.exists_close
      (Frame.isSome_feed ((feedAll .or e es).feed .or el) .and es')
    have hparse : parse (join (clauses .or (c :: init ++ [last]) ++ [⟨.and, s⟩])) = some g :=
      hread.trans hg
    have hors : (feedAll .or e es).Held (value · row = some true) ↔
        ∃ d ∈ c :: init, Satisfies value d row := by
      rw [exists_satisfies_iff (.cons he hes), feedAll, Frame.held_feed_ors _ rfl, held_operand,
        List.exists_mem_cons_iff]
    rw [satisfies_of_parse hparse, satisfies_iff hel, satisfies_iff hes', Frame.holds_close _ _ hg]
    refine or_congr ?_ ?_
    · exact (Frame.orsHold_feed_or _ hsome el).trans hors
    · refine (Frame.andsHold_operand _ (Frame.isSome_feed _ .or el) es').trans ?_
      rw [Frame.andsHold_feed_or]

/-! ## The query -/

theorem foldl_andWhere : ∀ (conditions : List (Condition ν)) (query : QueryBuilder ν),
    (conditions.foldl QueryBuilder.andWhere query).wheres = query.wheres ++ clauses .and conditions
  | [], query => by simp [clauses]
  | c :: cs, query => by
    rw [List.foldl_cons, foldl_andWhere cs]
    simp [QueryBuilder.andWhere, clauses]

theorem foldl_orWhere : ∀ (conditions : List (Condition ν)) (query : QueryBuilder ν),
    (conditions.foldl QueryBuilder.orWhere query).wheres = query.wheres ++ clauses .or conditions
  | [], query => by simp [clauses]
  | c :: cs, query => by
    rw [List.foldl_cons, foldl_orWhere cs]
    simp [QueryBuilder.orWhere, clauses]

/-- A single filter is added with `AND`. -/
def connectiveOf (type : Connective) (conditions : List (Condition ν)) : Connective :=
  if conditions.length = 1 then .and else type

theorem wheres_applyFilters (filter : DataTableFilter ν) (dbType : DbType)
    (tableReference : Option String) :
    (applyFilters {} filter dbType tableReference).wheres =
      clauses (connectiveOf filter.type (conditionsOf filter dbType tableReference))
        (conditionsOf filter dbType tableReference) := by
  unfold applyFilters connectiveOf
  rcases conditionsOf filter dbType tableReference with _ | ⟨c, _ | ⟨d, cs⟩⟩
  · simp [clauses]
  · rfl
  · cases htype : filter.type with
    | and => simpa using foldl_andWhere (c :: d :: cs) {}
    | or => simpa using foldl_orWhere (c :: d :: cs) {}

variable {dto : ListDataTableContentQueryDto ν} {dbType : DbType}

theorem complete_conditions {c : Condition ν} (h : c ∈ dto.conditions dbType) : Complete c := by
  unfold ListDataTableContentQueryDto.conditions at h
  cases hfilter : dto.filter with
  | none => simp [hfilter] at h
  | some filter =>
    rw [hfilter] at h
    obtain ⟨i, hi, rfl⟩ := List.mem_mapIdx.1 h
    exact complete_getConditionAndParams _ _ _ _

/-- The condition of a search on columns. -/
def searchGroup (search column : String) (columns : List String) (dbType : DbType) : Condition ν :=
  .lpar :: join (clauses .or ((column :: columns).map fun column =>
    [.atom (searchCondition search "dataTable" column dbType)])) ++ [.rpar]

/-- The condition of the search, where one is added. -/
def searchClause (dto : ListDataTableContentQueryDto ν) (columns : List String) (dbType : DbType) :
    List (Clause (Comparison ν)) :=
  match dto.searched, columns with
  | some search, column :: columns =>
    [⟨.and, searchGroup search column columns dbType⟩]
  | _, _ => []

theorem wheres_applySearch (query : QueryBuilder ν) (search : String) (columns : List String) :
    (applySearch query search "dataTable" columns dbType).wheres = query.wheres ++
      match columns with
      | [] => []
      | column :: columns => [⟨.and, searchGroup search column columns dbType⟩] := by
  cases columns with
  | nil => simp [applySearch]
  | cons column columns => simp [applySearch, QueryBuilder.andWhere, searchGroup, clauses, Function.comp_def]

theorem wheres_getManyQuery (dto : ListDataTableContentQueryDto ν) (columns : List String)
    (dbType : DbType) : (getManyQuery dto columns dbType).2.wheres =
    clauses (connectiveOf dto.type (dto.conditions dbType)) (dto.conditions dbType) ++
      searchClause dto columns dbType := by
  have hpages : (getManyQuery dto columns dbType).2.wheres =
      (getManyQuery dto columns dbType).1.wheres := by
    unfold getManyQuery applyPagination applySorting
    cases dto.sortBy <;> rfl
  rw [hpages]
  unfold getManyQuery searchClause ListDataTableContentQueryDto.type
    ListDataTableContentQueryDto.conditions
  cases dto.filter with
  | none =>
    cases dto.searched with
    | none => rfl
    | some search =>
      simp only [wheres_applySearch]
      cases columns <;> rfl
  | some filter =>
    cases dto.searched with
    | none => simpa using wheres_applyFilters filter dbType (some "dataTable")
    | some search =>
      simp only [wheres_applySearch, wheres_applyFilters]
      cases columns <;> rfl

/-! ## The rows -/

theorem selects_iff_satisfies {query : QueryBuilder ν} (h : query.wheres ≠ []) :
    query.Selects value row ↔ Satisfies value (join query.wheres) row :=
  or_iff_right h

/-- Without a search the filters are combined as they should be. -/
theorem selects_filters {type : Connective} {conditions : List (Condition ν)}
    (h : ∀ c ∈ conditions, Complete c) {query : QueryBuilder ν}
    (hwheres : query.wheres = clauses (connectiveOf type conditions) conditions) :
    query.Selects value row ↔ Combined value type conditions row := by
  rcases conditions with _ | ⟨c, cs⟩
  · refine iff_of_true (.inl hwheres) ?_
    cases type with
    | and => exact fun c hc => (by cases hc)
    | or => exact .inl rfl
  · rw [selects_iff_satisfies (by rw [hwheres]; exact List.cons_ne_nil _ _), hwheres]
    cases type with
    | and =>
      have hk : connectiveOf .and (c :: cs) = .and := ite_self _
      rw [hk]
      exact satisfies_ands h
    | or =>
      rcases cs with _ | ⟨d, cs⟩
      · exact (satisfies_ands h).trans (by simp [Combined])
      · exact (satisfies_join_ors h).trans (by simp [Combined])

/-- With a search, the last filter of a disjunction takes the search to itself. -/
theorem selects_search {type : Connective} {conditions : List (Condition ν)}
    (h : ∀ c ∈ conditions, Complete c) {s : Condition ν} (hs : Complete s) {query : QueryBuilder ν}
    (hwheres : query.wheres = clauses (connectiveOf type conditions) conditions ++ [⟨.and, s⟩]) :
    (query.Selects value row ↔ Combined value type conditions row ∧ Satisfies value s row) ↔
      (type = .or → ∀ c ∈ conditions.dropLast, Satisfies value c row → Satisfies value s row) := by
  rw [selects_iff_satisfies (by rw [hwheres]; simp), hwheres]
  have hands : ∀ cs : List (Condition ν), (∀ c ∈ cs, Complete c) →
      (Satisfies value (join (clauses .and cs ++ [⟨.and, s⟩])) row ↔
        (∀ c ∈ cs, Satisfies value c row) ∧ Satisfies value s row) := by
    intro cs hcs
    have hall : ∀ c ∈ cs ++ [s], Complete c := by
      intro c hc
      rcases List.mem_append.1 hc with hc | hc
      · exact hcs c hc
      · rwa [List.mem_singleton.1 hc]
    have hclauses : clauses .and cs ++ [⟨.and, s⟩] = clauses .and (cs ++ [s]) := by simp [clauses]
    rw [hclauses]
    rcases hsplit : cs ++ [s] with _ | ⟨d, ds⟩
    · exact absurd hsplit (by simp)
    · rw [hsplit] at hall
      rw [satisfies_ands hall, ← hsplit]
      simp [or_imp, forall_and]
  cases type with
  | and =>
    have hk : connectiveOf .and conditions = .and := ite_self _
    rw [hk]
    exact iff_of_true (hands conditions h) fun hor => (by cases hor)
  | or =>
    rcases conditions.eq_nil_or_concat with rfl | ⟨init, last, hsplit⟩
    · refine iff_of_true ((hands [] h).trans ?_) fun _ c hc => (by cases hc)
      simp [Combined]
    rw [List.concat_eq_append] at hsplit
    subst hsplit
    rcases init with _ | ⟨c, init⟩
    · refine iff_of_true ((hands [last] h).trans ?_) fun _ c hc => (by cases hc)
      simp [Combined]
    · have hk : connectiveOf .or (c :: init ++ [last]) = .or := if_neg (by simp)
      have hinit : ∀ d ∈ c :: init, Complete d := fun d hd => h d (List.mem_append_left _ hd)
      rw [hk, satisfies_ors_and hinit (h last (by simp)) hs, List.dropLast_concat]
      have hcombined : Combined value .or (c :: init ++ [last]) row ↔
          (∃ d ∈ c :: init, Satisfies value d row) ∨ Satisfies value last row := by
        simp [Combined, or_and_right, exists_or, or_assoc]
      rw [hcombined]
      constructor
      · intro hiff _ d hd hsat
        exact (hiff.1 (.inl ⟨d, hd, hsat⟩)).2
      · intro hcovers
        constructor
        · rintro (⟨d, hd, hsat⟩ | ⟨hlast, hsearch⟩)
          · exact ⟨.inl ⟨d, hd, hsat⟩, hcovers rfl d hd hsat⟩
          · exact ⟨.inr hlast, hsearch⟩
        · rintro ⟨hfirst | hlast, hsearch⟩
          · exact .inl hfirst
          · exact .inr ⟨hlast, hsearch⟩

theorem complete_searchColumns (search : String) (columns : List String) (dbType : DbType) :
    ∀ d ∈ columns.map fun column =>
      ([.atom (searchCondition search "dataTable" column dbType)] : Condition ν), Complete d := by
  intro d hd
  obtain ⟨column, -, rfl⟩ := List.mem_map.1 hd
  exact complete_atom _

theorem complete_searchGroup (search column : String) (columns : List String) (dbType : DbType) :
    Complete (searchGroup search column columns dbType : Condition ν) :=
  complete_ors _ _ (complete_searchColumns search (column :: columns) dbType)

theorem satisfies_searchGroup (search column : String) (columns : List String) :
    Satisfies value (searchGroup search column columns dbType) row ↔
      Contains value (column :: columns) dbType search row := by
  refine (satisfies_ors (complete_searchColumns search (column :: columns) dbType)).trans ?_
  unfold Contains
  constructor
  · rintro ⟨d, hd, hsat⟩
    rw [← List.map_cons (f := fun column =>
      ([.atom (searchCondition search "dataTable" column dbType)] : Condition ν))] at hd
    obtain ⟨column', hcolumn', rfl⟩ := List.mem_map.1 hd
    exact ⟨column', hcolumn', hsat⟩
  · rintro ⟨column', hcolumn', hsat⟩
    refine ⟨_, ?_, hsat⟩
    rw [← List.map_cons (f := fun column =>
      ([.atom (searchCondition search "dataTable" column dbType)] : Condition ν))]
    exact List.mem_map.2 ⟨column', hcolumn', rfl⟩

/-- The query selects the rows that satisfy the filters and contain the term, exactly when the rows
that the filters before the last of a disjunction let through contain it too, and there are columns
to search. -/
theorem selects_iff (value : Comparison ν → ρ → Option Bool)
    (dto : ListDataTableContentQueryDto ν) (columns : List String) (dbType : DbType)
    (rows : List ρ) :
    (∀ row ∈ rows, (getManyQuery dto columns dbType).2.Selects value row ↔
      Wanted value dto columns dbType row) ↔ SearchCovers value dto columns dbType rows := by
  have hcomplete : ∀ c ∈ dto.conditions dbType, Complete c := fun c hc => complete_conditions hc
  have hwheres := wheres_getManyQuery dto columns dbType
  unfold SearchCovers Wanted
  unfold searchClause at hwheres
  cases hsearch : dto.searched with
  | none =>
    rw [hsearch] at hwheres
    refine iff_of_true (fun row _ => ?_) fun search hnone => (by cases hnone)
    rw [selects_filters hcomplete (hwheres.trans (List.append_nil _))]
    simp
  | some search =>
    rw [hsearch] at hwheres
    simp only [Option.some.injEq, forall_eq']
    refine forall₂_congr fun row _ => ?_
    rcases columns with _ | ⟨column, columns⟩
    · rw [selects_filters hcomplete (hwheres.trans (List.append_nil _))]
      have hnone : ¬ Contains value [] dbType search row := by simp [Contains]
      constructor
      · intro hiff
        have hnot : ¬ Combined value dto.type (dto.conditions dbType) row := fun hcombined =>
          hnone ((hiff.1 hcombined).2)
        refine ⟨fun _ => hnot, fun hor c hc hsat => absurd ?_ hnot⟩
        rw [hor]
        exact .inr ⟨c, (List.dropLast_sublist _).mem hc, hsat⟩
      · rintro ⟨hnot, -⟩
        exact iff_of_false (hnot rfl) fun h => hnot rfl h.1
    · rw [← satisfies_searchGroup search column columns,
        selects_search hcomplete (complete_searchGroup search column columns dbType) hwheres]
      simp

/-- A filter by either of two names, and a search for the second. -/
def eitherName : ListDataTableContentQueryDto String :=
  { filter := some { type := .or, filters :=
      [⟨"name", .eq (some "ann")⟩, ⟨"name", .eq (some "bob")⟩] }
    search := some "bob" }

/-- A comparison on rows that are names. -/
def compareName (c : Comparison String) (name : String) : Option Bool :=
  c.param.map fun p => p.2 = .value (some name) ∨ p.2 = .text ("%" ++ name ++ "%")

theorem either_name_searched : ¬ ∀ row ∈ ["ann", "bob"],
    (getManyQuery eitherName ["name"] .postgres).2.Selects compareName row ↔
      Wanted compareName eitherName ["name"] .postgres row := by
  intro h
  have hwanted := (h "ann" (by decide)).1 (.inr ⟨_, rfl, by decide⟩)
  obtain ⟨column, hcolumn, e, he, htrue⟩ := hwanted.2 "bob" (by decide)
  obtain rfl := List.mem_singleton.1 hcolumn
  obtain rfl := Option.some.inj he
  exact absurd htrue (by decide)

end N8n

/-!
# Patterns of text conditions

A filter has text with `%` as its only wildcard. It is written as a `GLOB` or as a `LIKE` pattern,
and both are read as what the text means.
-/

namespace N8n

open Wildcards

/-! ## `LIKE` -/

/-- The characters that a character is escaped to. -/
def escapeLikeChar (c : Char) : List Char :=
  if c = '\\' then ['\\', '\\'] else if c = '_' then ['\\', '_'] else [c]

theorem toList_escapeLikeSpecials (input : String) :
    (escapeLikeSpecials input).toList = input.toList.flatMap escapeLikeChar := by
  rw [escapeLikeSpecials, String.toList_join, List.flatMap_map]
  refine List.flatMap_congr fun c _ => ?_
  unfold escapeLikeChar
  split_ifs <;> simp

theorem like_cons_of_ne {c : Char} (hc : c ≠ '\\') (pattern : List Char) :
    like '\\' (c :: pattern) = (like '\\' pattern).map
      ((if c = '%' then .run else if c = '_' then .one fun _ => true else .one (· = c)) :: ·) := by
  cases pattern with
  | nil => simp [like, hc]
  | cons next pattern => rw [like, if_neg hc]

/-- An escaped text is read as a pattern with `%` only. -/
theorem like_escapeLikeChar : ∀ input : List Char,
    like '\\' (input.flatMap escapeLikeChar) = some (percent input)
  | [] => rfl
  | c :: input => by
    have ih := like_escapeLikeChar input
    rw [List.flatMap_cons]
    by_cases hslash : c = '\\'
    · subst hslash
      change like '\\' ('\\' :: '\\' :: input.flatMap escapeLikeChar) = _
      rw [like, if_pos rfl, ih]
      rfl
    by_cases hunderscore : c = '_'
    · subst hunderscore
      change like '\\' ('\\' :: '_' :: input.flatMap escapeLikeChar) = _
      rw [like, if_pos rfl, ih]
      rfl
    · have hchar : escapeLikeChar c = [c] := by simp [escapeLikeChar, hslash, hunderscore]
      rw [hchar, List.singleton_append, like_cons_of_ne hslash, ih, if_neg hunderscore]
      rfl

/-! ## `GLOB` -/

/-- The characters that a character is written as for `GLOB`. -/
def globChar (c : Char) : List Char :=
  if c = '%' then ['*'] else if c = '[' then ['[', '[', ']'] else if c = ']' then ['[', ']', ']']
  else if c = '*' then ['[', '*', ']'] else if c = '?' then ['[', '?', ']'] else [c]

theorem toList_toSqliteGlobFromPercent (input : String) :
    (toSqliteGlobFromPercent input).toList = input.toList.flatMap globChar := by
  rw [toSqliteGlobFromPercent, String.toList_join, List.flatMap_map]
  refine List.flatMap_congr fun c _ => ?_
  unfold globChar
  split_ifs <;> simp

/-- A set with a single member is that character. -/
theorem inSet_singleton (c : Char) : inSet [(c, c)] = fun x => decide (x = c) := by
  funext x
  simp only [inSet, List.any_cons, List.any_nil, Bool.or_false, decide_eq_decide]
  exact ⟨fun h => Char.le_antisymm h.2 h.1, fun h => h ▸ ⟨Char.le_refl _, Char.le_refl _⟩⟩

/-- The characters of a set that is written for a character, and how it is read. -/
theorem globSet_globChar {c : Char} (hc : c ∈ ['[', ']', '*', '?']) (pattern : List Char) :
    globSet (c :: ']' :: pattern) = some (percentItem c, pattern) := by
  have hread : globSet (c :: ']' :: pattern) = some (.one (inSet [(c, c)]), pattern) := by
    simp only [List.mem_cons, List.not_mem_nil, or_false] at hc
    rcases hc with rfl | rfl | rfl | rfl <;> rfl
  rw [hread, inSet_singleton, percentItem, if_neg]
  rintro rfl
  simp at hc

theorem globItems_globChar : ∀ (input : List Char) (fuel : ℕ),
    (input.flatMap globChar).length < fuel →
      globItems fuel (input.flatMap globChar) = some (percent input)
  | _, 0, hfuel => absurd hfuel (Nat.not_lt_zero _)
  | [], _ + 1, _ => rfl
  | c :: input, fuel + 1, hfuel => by
    rw [List.flatMap_cons, List.length_append] at hfuel
    rw [List.flatMap_cons]
    by_cases hset : c ∈ ['[', ']', '*', '?']
    · have hchar : globChar c = ['[', c, ']'] := by
        simp only [List.mem_cons, List.not_mem_nil, or_false] at hset
        rcases hset with rfl | rfl | rfl | rfl <;> rfl
      rw [hchar] at hfuel ⊢
      change globItems (fuel + 1) ('[' :: c :: ']' :: input.flatMap globChar) = _
      rw [globItems, if_neg (by decide), if_neg (by decide), if_pos rfl, globSet_globChar hset,
        Option.bind_some, globItems_globChar input fuel (by
          simp only [List.length_cons, List.length_nil] at hfuel
          omega)]
      rfl
    · obtain ⟨hopen, hclose, hstar, hquestion⟩ : c ≠ '[' ∧ c ≠ ']' ∧ c ≠ '*' ∧ c ≠ '?' := by
        simpa using hset
      by_cases hpercent : c = '%'
      · subst hpercent
        change globItems (fuel + 1) ('*' :: input.flatMap globChar) = _
        have hlength : (globChar '%').length = 1 := rfl
        rw [globItems, if_pos rfl, globItems_globChar input fuel (by omega)]
        rfl
      · have hchar : globChar c = [c] := by
          simp [globChar, hpercent, hopen, hclose, hstar, hquestion]
        rw [hchar] at hfuel ⊢
        rw [List.singleton_append, globItems, if_neg hstar, if_neg hquestion, if_neg hopen,
          globItems_globChar input fuel (by rw [List.length_singleton] at hfuel; omega)]
        simp only [percent, List.map_cons, percentItem, if_neg hpercent, Option.map_some]

/-- The patterns for `GLOB` and for `LIKE` match a text exactly when it is one that the pattern with
`%` stands for. -/
theorem likePatterns_match (pattern text : String) :
    (matchPattern (glob (toSqliteGlobFromPercent pattern).toList) text.toList = true ↔
      matchItems (percent pattern.toList) text.toList = true) ∧
    (matchPattern (like '\\' (escapeLikeSpecials pattern).toList) text.toList = true ↔
      matchItems (percent pattern.toList) text.toList = true) := by
  constructor
  · rw [toList_toSqliteGlobFromPercent, glob, globItems_globChar _ _ (Nat.lt_succ_self _)]
    rfl
  · rw [toList_escapeLikeSpecials, like_escapeLikeChar]
    rfl

end N8n
