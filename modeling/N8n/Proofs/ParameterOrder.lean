import N8n.ParameterOrder

/-!
# The order of parameters

An index that has to wait is put back, and still added to the order at once. The order is right
exactly if no index is ever put back, or if the parameters cannot be ordered and this is noticed.
-/

namespace N8n.ParameterQueue

variable (names : List String) (parameterDependencies : String → Option (List String))

/-! ## What it is for -/

def nameAt (i : ℕ) : String := names.getD i ""

/-- The dependencies of a parameter, none if the table has nothing for it. -/
def dependenciesAt (i : ℕ) : List String := (parameterDependencies (nameAt names i)).getD []

/-- The first parameter depends on the second. Those at the root are taken for resolved. -/
def DependsOn (j i : ℕ) : Prop :=
  nameAt names i ∈ dependenciesAt names parameterDependencies j ∧
    isRootParameter (nameAt names i) = false

/-- Each index once, after those that its parameter depends on. -/
structure Resolves (order : List ℕ) : Prop where
  perm : order.Perm (List.range names.length)
  after : ∀ i < names.length, ∀ j < names.length, DependsOn names parameterDependencies j i →
    order.idxOf i < order.idxOf j

/-- What the parameters depend on is in the list. -/
def Present : Prop :=
  ∀ j < names.length, ∀ dependency ∈ dependenciesAt names parameterDependencies j,
    isRootParameter dependency = false → dependency ∈ names

def Resolvable : Prop :=
  Present names parameterDependencies ∧ ∃ order, Resolves names parameterDependencies order

/-- What the loop ends with. -/
def Result (s : ParameterQueue) (result : Except ResolveError (List ℕ)) : Prop :=
  ∃ fuel, s.run names parameterDependencies fuel = some result

/-- It throws for parameters that cannot be resolved, or gives an order that resolves them. -/
def OrderCorrect (nodePropertiesArray : List NodeProperties)
    (parameterDependencies : String → Option (List String)) : Prop :=
  let names := nodePropertiesArray.map (·.name)
  ((∃ fuel, getParameterResolveOrder fuel nodePropertiesArray parameterDependencies =
      some (.error .unresolved)) ∧ ¬ Resolvable names parameterDependencies) ∨
    ∃ order, (∃ fuel, getParameterResolveOrder fuel nodePropertiesArray parameterDependencies =
      some (.ok order)) ∧ Resolves names parameterDependencies order

/-- The table has something for each parameter. -/
def Covered : Prop := ∀ i < names.length, (parameterDependencies (nameAt names i)).isSome

/-- All parameters that a parameter depends on are in the list, and before it. -/
def InOrder : Prop :=
  ∀ j < names.length, ∀ dependency ∈ dependenciesAt names parameterDependencies j,
    isRootParameter dependency = false → dependency ∈ names.take j ∧ dependency ∉ names.drop j

/-- How many of its dependencies a parameter has to wait for. -/
def waiting (i : ℕ) : ℕ :=
  (missingDependencies (names.take i) (dependenciesAt names parameterDependencies i)).length

/-- How many parameters without dependencies are directly before an index. -/
def freeBefore (j : ℕ) : ℕ :=
  ((List.range j).reverse.takeWhile
    fun i => dependenciesAt names parameterDependencies i = []).length

/-- The parameters with dependencies have to wait for more of them than there are parameters without
any directly before. -/
def Stalls (j : ℕ) : Prop :=
  ∀ i < j, dependenciesAt names parameterDependencies i ≠ [] →
    freeBefore names parameterDependencies i < waiting names parameterDependencies i

/-- The queue has not become shorter at any parameter with dependencies, the last one among them. -/
def Stuck : Prop :=
  names ≠ [] ∧ dependenciesAt names parameterDependencies (names.length - 1) ≠ [] ∧
    Stalls names parameterDependencies names.length

/-! ## Results -/

section Results

variable {names parameterDependencies} {s s' : ParameterQueue}
  {result result' : Except ResolveError (List ℕ)}

theorem result_of_next (h : s.step names parameterDependencies = some (.ok s')) :
    Result names parameterDependencies s result ↔ Result names parameterDependencies s' result := by
  constructor
  · rintro ⟨fuel, hrun⟩
    cases fuel with
    | zero => cases hrun
    | succ fuel =>
      rw [run, h] at hrun
      exact ⟨fuel, hrun⟩
  · rintro ⟨fuel, hrun⟩
    refine ⟨fuel + 1, ?_⟩
    rw [run, h]
    exact hrun

theorem result_of_error {error : ResolveError}
    (h : s.step names parameterDependencies = some (.error error)) :
    Result names parameterDependencies s result ↔ result = .error error := by
  constructor
  · rintro ⟨fuel, hrun⟩
    cases fuel with
    | zero => cases hrun
    | succ fuel =>
      rw [run, h] at hrun
      exact (Option.some.inj hrun).symm
  · rintro rfl
    refine ⟨1, ?_⟩
    rw [run, h]

theorem result_of_empty (h : s.indexToResolve = []) :
    Result names parameterDependencies s result ↔ result = .ok s.executionOrder := by
  have hstep : s.step names parameterDependencies = none := by rw [step, h]
  constructor
  · rintro ⟨fuel, hrun⟩
    cases fuel with
    | zero => cases hrun
    | succ fuel =>
      rw [run, hstep] at hrun
      exact (Option.some.inj hrun).symm
  · rintro rfl
    refine ⟨1, ?_⟩
    rw [run, hstep]

theorem result_unique : ∀ {fuel : ℕ} {s : ParameterQueue},
    s.run names parameterDependencies fuel = some result →
      Result names parameterDependencies s result' → result = result'
  | 0, _, h, _ => by cases h
  | fuel + 1, s, h, h' => by
    cases hstep : s.step names parameterDependencies with
    | none =>
      have hempty : s.indexToResolve = [] := by
        unfold step at hstep
        split at hstep
        · assumption
        · simp only at hstep
          split at hstep <;> (try split_ifs at hstep) <;> cases hstep
      rw [run, hstep] at h
      exact (Option.some.inj h).symm.trans ((result_of_empty hempty).1 h').symm
    | some next =>
      cases next with
      | error error =>
        rw [run, hstep] at h
        exact (Option.some.inj h).symm.trans ((result_of_error hstep).1 h').symm
      | ok next =>
        rw [run, hstep] at h
        exact result_unique h ((result_of_next hstep).1 h')

end Results

/-! ## One turn of the loop -/

section Step

variable {names parameterDependencies} {s : ParameterQueue} {index : ℕ} {rest : List ℕ}
  (hqueue : s.indexToResolve = index :: rest)

include hqueue

theorem step_noDependencies (h : parameterDependencies (nameAt names index) = none) :
    s.step names parameterDependencies = some (.error .noDependencies) := by
  unfold nameAt at h
  simp only [step, hqueue, h]

theorem step_free (h : parameterDependencies (nameAt names index) = some []) :
    s.step names parameterDependencies = some (.ok
      { s with
        indexToResolve := rest
        iterations := s.iterations + 1
        executionOrder := s.executionOrder ++ [index]
        resolvedParameters := s.resolvedParameters ++ [nameAt names index] }) := by
  unfold nameAt at h
  simp only [step, hqueue, h]
  rfl

/-- What a parameter with dependencies leaves in the queue, and when it counts as a reduction. -/
theorem step_waits {dependencies : List String}
    (h : parameterDependencies (nameAt names index) = some dependencies)
    (hne : dependencies ≠ []) {queue : List ℕ}
    (hnext : queue = rest ++ List.replicate
      (missingDependencies s.resolvedParameters dependencies).length index)
    {reduction : ℤ} (hreduction : reduction =
      if queue.length < s.lastIndexLength then ((s.iterations + 1 : ℕ) : ℤ)
      else s.lastIndexReduction) :
    s.step names parameterDependencies =
      if reduction + names.length < (s.iterations + 1 : ℕ) then some (.error .unresolved)
      else some (.ok
        { indexToResolve := queue
          executionOrder := s.executionOrder ++ [index]
          resolvedParameters := s.resolvedParameters ++ [nameAt names index]
          lastIndexLength := queue.length
          lastIndexReduction := reduction
          iterations := s.iterations + 1 }) := by
  subst hnext hreduction
  obtain ⟨dependency, dependencies, rfl⟩ := List.exists_cons_of_ne_nil hne
  unfold nameAt at h
  simp only [step, hqueue, h]
  rfl

end Step

theorem missingDependencies_congr {resolved resolved' : List String}
    (h : ∀ name, name ∈ resolved ↔ name ∈ resolved') (dependencies : List String) :
    missingDependencies resolved dependencies = missingDependencies resolved' dependencies := by
  simp only [missingDependencies, h]

/-! ## The first pass -/

section FirstPass

variable {names parameterDependencies}

/-- The indexes that are put back up to an index. -/
def requeued (names : List String) (parameterDependencies : String → Option (List String))
    (j : ℕ) : List ℕ :=
  (List.range j).flatMap fun i => List.replicate (waiting names parameterDependencies i) i

/-- What holds after as many turns as there are indexes before `j`. -/
structure Visited (names : List String) (parameterDependencies : String → Option (List String))
    (j : ℕ) (s : ParameterQueue) : Prop where
  queue : s.indexToResolve =
    List.range' j (names.length - j) ++ requeued names parameterDependencies j
  order : s.executionOrder = List.range j
  resolved : s.resolvedParameters = names.take j
  iterations : s.iterations = j
  last : s.lastIndexLength = s.indexToResolve.length + freeBefore names parameterDependencies j
  reduction : s.lastIndexReduction = -1 ∧ Stalls names parameterDependencies j ∨
    0 ≤ s.lastIndexReduction ∧ ¬ Stalls names parameterDependencies j

theorem requeued_succ (j : ℕ) : requeued names parameterDependencies (j + 1) =
    requeued names parameterDependencies j ++
      List.replicate (waiting names parameterDependencies j) j := by
  rw [requeued, List.range_succ, List.flatMap_append, List.flatMap_singleton]
  rfl

theorem freeBefore_succ (j : ℕ) : freeBefore names parameterDependencies (j + 1) =
    if dependenciesAt names parameterDependencies j = [] then
      freeBefore names parameterDependencies j + 1
    else 0 := by
  rw [freeBefore, List.range_succ, List.reverse_append, List.reverse_singleton,
    List.singleton_append, List.takeWhile_cons]
  by_cases h : dependenciesAt names parameterDependencies j = []
  · simp only [h, decide_true, if_true, List.length_cons]
    rfl
  · simp only [h, decide_false, Bool.false_eq_true, if_false, List.length_nil]

theorem stalls_succ (j : ℕ) : Stalls names parameterDependencies (j + 1) ↔
    Stalls names parameterDependencies j ∧ (dependenciesAt names parameterDependencies j ≠ [] →
      freeBefore names parameterDependencies j < waiting names parameterDependencies j) := by
  unfold Stalls
  constructor
  · exact fun h => ⟨fun i hi => h i (by omega), h j (by omega)⟩
  · rintro ⟨h, hj⟩ i hi
    rcases Nat.lt_succ_iff_lt_or_eq.1 hi with hlt | rfl
    · exact h i hlt
    · exact hj

theorem visited_start : Visited names parameterDependencies 0 (start names) where
  queue := by simp [start, requeued, List.range_eq_range']
  order := rfl
  resolved := rfl
  iterations := rfl
  last := by simp [start, freeBefore]
  reduction := Or.inl ⟨rfl, fun i hi => absurd hi (Nat.not_lt_zero i)⟩

section Turn

variable {s : ParameterQueue} {j : ℕ}

theorem nameAt_of_lt (hj : j < names.length) : nameAt names j = names[j] := by
  rw [nameAt, List.getD_eq_getElem?_getD, List.getElem?_eq_getElem hj, Option.getD_some]

theorem Visited.queue_cons (h : Visited names parameterDependencies j s) (hj : j < names.length) :
    s.indexToResolve = j ::
      (List.range' (j + 1) (names.length - (j + 1)) ++ requeued names parameterDependencies j) := by
  rw [h.queue, show names.length - j = names.length - (j + 1) + 1 by omega, List.range'_succ,
    List.cons_append]

theorem take_succ_nameAt (hj : j < names.length) :
    names.take (j + 1) = names.take j ++ [nameAt names j] := by
  rw [nameAt_of_lt hj, List.take_append_getElem hj]

theorem dependenciesAt_of_some {dependencies : List String}
    (h : parameterDependencies (nameAt names j) = some dependencies) :
    dependenciesAt names parameterDependencies j = dependencies := by
  rw [dependenciesAt, h, Option.getD_some]

theorem Visited.free (h : Visited names parameterDependencies j s) (hj : j < names.length)
    (hfree : parameterDependencies (nameAt names j) = some []) :
    ∃ s', s.step names parameterDependencies = some (.ok s') ∧
      Visited names parameterDependencies (j + 1) s' := by
  have hdependencies := dependenciesAt_of_some hfree
  have hwaiting : waiting names parameterDependencies j = 0 := by
    rw [waiting, hdependencies]
    rfl
  have hlength := congrArg List.length (h.queue_cons hj)
  rw [List.length_cons] at hlength
  refine ⟨_, step_free (h.queue_cons hj) hfree, ?_, ?_, ?_, ?_, ?_, ?_⟩
  · rw [requeued_succ, hwaiting, List.replicate_zero, List.append_nil]
  · rw [h.order, List.range_succ]
  · rw [h.resolved, take_succ_nameAt hj]
  · rw [h.iterations]
  · rw [freeBefore_succ, if_pos hdependencies]
    simp only [h.last, hlength]
    omega
  · simp only [stalls_succ, hdependencies, ne_eq, not_true_eq_false, false_imp_iff, and_true]
    exact h.reduction

/-- A parameter that has to wait is put back, or the loop ends at the last index. -/
theorem Visited.waits (h : Visited names parameterDependencies j s) (hj : j < names.length)
    {dependencies : List String}
    (hsome : parameterDependencies (nameAt names j) = some dependencies) (hne : dependencies ≠ []) :
    (j + 1 = names.length ∧ Stalls names parameterDependencies (j + 1) ∧
        s.step names parameterDependencies = some (.error .unresolved)) ∨
      (¬ (j + 1 = names.length ∧ Stalls names parameterDependencies (j + 1)) ∧
        ∃ s', s.step names parameterDependencies = some (.ok s') ∧
          Visited names parameterDependencies (j + 1) s') := by
  have hdependencies := dependenciesAt_of_some hsome
  have hlength := congrArg List.length (h.queue_cons hj)
  rw [List.length_cons] at hlength
  have hnext : List.range' (j + 1) (names.length - (j + 1)) ++
      requeued names parameterDependencies (j + 1) =
      List.range' (j + 1) (names.length - (j + 1)) ++ requeued names parameterDependencies j ++
        List.replicate (missingDependencies s.resolvedParameters dependencies).length j := by
    rw [requeued_succ, List.append_assoc, waiting, hdependencies, h.resolved]
  have hlonger : (List.range' (j + 1) (names.length - (j + 1)) ++
      requeued names parameterDependencies (j + 1)).length =
      (List.range' (j + 1) (names.length - (j + 1)) ++ requeued names parameterDependencies j).length
        + waiting names parameterDependencies j := by
    rw [requeued_succ, ← List.append_assoc, List.length_append, List.length_replicate]
  have hstep := step_waits (h.queue_cons hj) hsome hne hnext rfl
  have hstalls : Stalls names parameterDependencies (j + 1) ↔
      Stalls names parameterDependencies j ∧
        freeBefore names parameterDependencies j < waiting names parameterDependencies j := by
    rw [stalls_succ, hdependencies, forall_prop_of_true hne]
  have hfree : freeBefore names parameterDependencies (j + 1) = 0 := by
    rw [freeBefore_succ, if_neg (hdependencies ▸ hne)]
  have hlast := h.last
  have hiterations := h.iterations
  -- What is common to all turns that go on.
  have hvisited {reduction : ℤ}
      (hreduction : reduction = -1 ∧ Stalls names parameterDependencies (j + 1) ∨
        0 ≤ reduction ∧ ¬ Stalls names parameterDependencies (j + 1)) :
      Visited names parameterDependencies (j + 1)
        { indexToResolve := List.range' (j + 1) (names.length - (j + 1)) ++
            requeued names parameterDependencies (j + 1)
          executionOrder := s.executionOrder ++ [j]
          resolvedParameters := s.resolvedParameters ++ [nameAt names j]
          lastIndexLength := (List.range' (j + 1) (names.length - (j + 1)) ++
            requeued names parameterDependencies (j + 1)).length
          lastIndexReduction := reduction
          iterations := s.iterations + 1 } :=
    { queue := rfl
      order := by rw [h.order, List.range_succ]
      resolved := by rw [h.resolved, take_succ_nameAt hj]
      iterations := by rw [h.iterations]
      last := by simp only [hfree, Nat.add_zero]
      reduction := hreduction }
  by_cases hwaits : freeBefore names parameterDependencies j < waiting names parameterDependencies j
  · rw [if_neg (by omega : ¬ _ < s.lastIndexLength)] at hstep
    rcases h.reduction with ⟨hnever, hstalled⟩ | ⟨hreduced, hnot⟩
    · by_cases hend : j + 1 = names.length
      · rw [if_pos (by omega)] at hstep
        exact Or.inl ⟨hend, hstalls.2 ⟨hstalled, hwaits⟩, hstep⟩
      · rw [if_neg (by omega)] at hstep
        exact Or.inr ⟨fun hand => hend hand.1, _, hstep,
          hvisited (Or.inl ⟨hnever, hstalls.2 ⟨hstalled, hwaits⟩⟩)⟩
    · rw [if_neg (by omega)] at hstep
      exact Or.inr ⟨fun hand => hnot (hstalls.1 hand.2).1, _, hstep,
        hvisited (Or.inr ⟨hreduced, fun hstalled => hnot (hstalls.1 hstalled).1⟩)⟩
  · rw [if_pos (by omega : _ < s.lastIndexLength), if_neg (by omega)] at hstep
    exact Or.inr ⟨fun hand => hwaits (hstalls.1 hand.2).2, _, hstep,
      hvisited (Or.inr ⟨by omega, fun hstalled => hwaits (hstalls.1 hstalled).2⟩)⟩

end Turn

theorem stuck_of_last {j : ℕ} (hlast : j + 1 = names.length)
    (hne : dependenciesAt names parameterDependencies j ≠ []) :
    Stuck names parameterDependencies ↔ Stalls names parameterDependencies (j + 1) := by
  have hnames : names ≠ [] := List.ne_nil_of_length_pos (by omega)
  rw [Stuck, ← hlast, Nat.add_sub_cancel]
  exact ⟨fun h => h.2.2, fun h => ⟨hnames, hne, h⟩⟩

/-- The turns before an index lead there, or end at the last one. -/
theorem visited_of_covered : ∀ j ≤ names.length,
    (∀ i < j, (parameterDependencies (nameAt names i)).isSome) →
      (∃ s, Visited names parameterDependencies j s ∧
        (∀ result, Result names parameterDependencies (start names) result ↔
          Result names parameterDependencies s result) ∧
        (j = names.length → ¬ Stuck names parameterDependencies)) ∨
      (j = names.length ∧ Stuck names parameterDependencies ∧
        Result names parameterDependencies (start names) (.error .unresolved))
  | 0, _, _ =>
    Or.inl ⟨start names, visited_start, fun _ => Iff.rfl,
      fun hzero hstuck => hstuck.1 (List.length_eq_zero_iff.1 hzero.symm)⟩
  | j + 1, hj, hcovered => by
    have hlt : j < names.length := hj
    rcases visited_of_covered j (by omega) fun i hi => hcovered i (by omega) with
      ⟨s, hvisited, hresult, -⟩ | ⟨hall, -⟩
    · obtain ⟨dependencies, hsome⟩ := Option.isSome_iff_exists.1 (hcovered j (by omega))
      have hdependencies := dependenciesAt_of_some hsome
      by_cases hne : dependencies = []
      · obtain ⟨s', hstep, hnext⟩ := hvisited.free hlt (hne ▸ hsome)
        refine Or.inl ⟨s', hnext, fun result => (hresult result).trans (result_of_next hstep),
          fun hlast hstuck => hstuck.2.1 ?_⟩
        rw [← hlast, Nat.add_sub_cancel, hdependencies, hne]
      · have hwaits : dependenciesAt names parameterDependencies j ≠ [] := hdependencies ▸ hne
        rcases hvisited.waits hlt hsome hne with ⟨hlast, hstalls, hstep⟩ | ⟨hnot, s', hstep, hnext⟩
        · exact Or.inr ⟨hlast, (stuck_of_last hlast hwaits).2 hstalls,
            (hresult _).2 ((result_of_error hstep).2 rfl)⟩
        · exact Or.inl ⟨s', hnext, fun result => (hresult result).trans (result_of_next hstep),
            fun hlast hstuck => hnot ⟨hlast, (stuck_of_last hlast hwaits).1 hstuck⟩⟩
    · omega

/-- A name that the table has nothing for ends the loop. -/
theorem noDependencies_of_not_covered (h : ¬ Covered names parameterDependencies) :
    Result names parameterDependencies (start names) (.error .noDependencies) := by
  classical
  have hex : ∃ i, i < names.length ∧ ¬ (parameterDependencies (nameAt names i)).isSome := by
    unfold Covered at h
    push Not at h
    simpa only [ne_eq, Bool.not_eq_true] using h
  have hleast : ∀ i < Nat.find hex, (parameterDependencies (nameAt names i)).isSome := by
    intro i hi
    by_contra hnone
    exact Nat.find_min hex hi ⟨hi.trans (Nat.find_spec hex).1, hnone⟩
  obtain ⟨hlt, hnone⟩ := Nat.find_spec hex
  rw [Bool.not_eq_true, Option.isSome_eq_false_iff, Option.isNone_iff_eq_none] at hnone
  rcases visited_of_covered _ hlt.le hleast with ⟨s, hvisited, hresult, -⟩ | ⟨hall, -⟩
  · exact (hresult _).2
      ((result_of_error (step_noDependencies (hvisited.queue_cons hlt) hnone)).2 rfl)
  · omega

end FirstPass

/-! ## The indexes that were put back -/

section PutBack

variable {names parameterDependencies} {s : ParameterQueue} {index : ℕ} {rest : List ℕ}

/-- How many of its dependencies a parameter cannot have. -/
def lacking (names : List String) (parameterDependencies : String → Option (List String))
    (i : ℕ) : ℕ :=
  (missingDependencies names (dependenciesAt names parameterDependencies i)).length

/-- Only indexes of parameters with dependencies are left, and all names are resolved. -/
structure PutBack (names : List String) (parameterDependencies : String → Option (List String))
    (s : ParameterQueue) : Prop where
  resolved : ∀ name, name ∈ s.resolvedParameters ↔ name ∈ names
  queue : ∀ i ∈ s.indexToResolve, i < names.length ∧
    dependenciesAt names parameterDependencies i ≠ []

theorem mem_requeued {i j : ℕ} : i ∈ requeued names parameterDependencies j ↔
    i < j ∧ waiting names parameterDependencies i ≠ 0 := by
  simp only [requeued, List.mem_flatMap, List.mem_range, List.mem_replicate]
  constructor
  · rintro ⟨k, hk, hne, rfl⟩
    exact ⟨hk, hne⟩
  · rintro ⟨hi, hne⟩
    exact ⟨i, hi, hne, rfl⟩

theorem Visited.queue_end (h : Visited names parameterDependencies names.length s) :
    s.indexToResolve = requeued names parameterDependencies names.length := by
  rw [h.queue, Nat.sub_self, List.range'_zero, List.nil_append]

theorem Visited.putBack (h : Visited names parameterDependencies names.length s) :
    PutBack names parameterDependencies s where
  resolved name := by rw [h.resolved, List.take_length]
  queue i hi := by
    rw [h.queue_end, mem_requeued] at hi
    refine ⟨hi.1, fun hempty => hi.2 ?_⟩
    rw [waiting, hempty]
    rfl

/-- What the turn for an index that was put back leaves. -/
def putBackNext (names : List String) (parameterDependencies : String → Option (List String))
    (s : ParameterQueue) (index : ℕ) (rest : List ℕ) (reduction : ℤ) : ParameterQueue :=
  let queue := rest ++ List.replicate (lacking names parameterDependencies index) index
  { indexToResolve := queue
    executionOrder := s.executionOrder ++ [index]
    resolvedParameters := s.resolvedParameters ++ [nameAt names index]
    lastIndexLength := queue.length
    lastIndexReduction := reduction
    iterations := s.iterations + 1 }

theorem PutBack.step (h : PutBack names parameterDependencies s)
    (hcovered : Covered names parameterDependencies) (hqueue : s.indexToResolve = index :: rest)
    {reduction : ℤ} (hreduction : reduction =
      if rest.length + lacking names parameterDependencies index < s.lastIndexLength then
        ((s.iterations + 1 : ℕ) : ℤ)
      else s.lastIndexReduction) :
    s.step names parameterDependencies =
      if reduction + names.length < (s.iterations + 1 : ℕ) then some (.error .unresolved)
      else some (.ok (putBackNext names parameterDependencies s index rest reduction)) := by
  obtain ⟨hlt, hne⟩ := h.queue index (by rw [hqueue]; exact List.mem_cons_self)
  obtain ⟨dependencies, hsome⟩ := Option.isSome_iff_exists.1 (hcovered index hlt)
  have hdependencies := dependenciesAt_of_some hsome
  refine step_waits hqueue hsome (hdependencies ▸ hne) ?_ ?_
  · rw [lacking, hdependencies, missingDependencies_congr h.resolved]
  · rw [hreduction, List.length_append, List.length_replicate]

theorem PutBack.next (h : PutBack names parameterDependencies s)
    (hqueue : s.indexToResolve = index :: rest) (reduction : ℤ) :
    PutBack names parameterDependencies
      (putBackNext names parameterDependencies s index rest reduction) where
  resolved name := by
    have hlt := (h.queue index (by rw [hqueue]; exact List.mem_cons_self)).1
    have hmem : nameAt names index ∈ names := by
      rw [nameAt_of_lt hlt]
      exact List.getElem_mem hlt
    simp only [putBackNext, List.mem_append, List.mem_singleton, h.resolved]
    exact ⟨fun hor => hor.elim id fun heq => heq ▸ hmem, Or.inl⟩
  queue i hi := by
    refine h.queue i ?_
    rw [hqueue, List.mem_cons]
    simp only [putBackNext, List.mem_append, List.mem_replicate] at hi
    exact hi.elim Or.inr fun heq => Or.inl heq.2

/-- If nothing lacks for them, the indexes that were put back are added once more. -/
theorem result_of_present (hcovered : Covered names parameterDependencies) :
    ∀ (queue : List ℕ) {s : ParameterQueue}, s.indexToResolve = queue →
      PutBack names parameterDependencies s → queue.length ≤ s.lastIndexLength →
      (∀ i ∈ queue, lacking names parameterDependencies i = 0) →
        Result names parameterDependencies s (.ok (s.executionOrder ++ queue))
  | [], s, hqueue, _, _, _ => by
    rw [List.append_nil]
    exact (result_of_empty hqueue).2 rfl
  | index :: rest, s, hqueue, h, hlength, hlacking => by
    have hnone := hlacking index List.mem_cons_self
    rw [List.length_cons] at hlength
    have hstep := h.step hcovered hqueue rfl
    rw [if_pos (by omega : rest.length + _ < s.lastIndexLength), if_neg (by omega)] at hstep
    have hrest : (putBackNext names parameterDependencies s index rest
        ((s.iterations + 1 : ℕ) : ℤ)).indexToResolve = rest := by
      rw [putBackNext, hnone, List.replicate_zero, List.append_nil]
    have hnext := result_of_present hcovered rest hrest (h.next hqueue _)
      (congrArg List.length hrest).ge fun i hi => hlacking i (List.mem_cons_of_mem _ hi)
    rw [result_of_next hstep]
    rw [putBackNext, List.append_assoc, List.singleton_append] at hnext
    exact hnext

/-- An index whose parameter lacks a dependency stays in the queue. -/
theorem not_ok_of_lacking (hcovered : Covered names parameterDependencies) {i : ℕ}
    (hlacking : lacking names parameterDependencies i ≠ 0) {order : List ℕ} :
    ∀ (fuel : ℕ) {s : ParameterQueue}, PutBack names parameterDependencies s →
      i ∈ s.indexToResolve → s.run names parameterDependencies fuel ≠ some (.ok order)
  | 0, _, _, _ => by
    rintro ⟨⟩
  | fuel + 1, s, h, hi => by
    cases hqueue : s.indexToResolve with
    | nil =>
      rw [hqueue] at hi
      cases hi
    | cons index rest =>
      obtain ⟨reduction, hreduction⟩ : ∃ reduction : ℤ, reduction =
          if rest.length + lacking names parameterDependencies index < s.lastIndexLength then
            ((s.iterations + 1 : ℕ) : ℤ)
          else s.lastIndexReduction := ⟨_, rfl⟩
      have hstep := h.step hcovered hqueue hreduction
      split at hstep
      · rw [run, hstep]
        rintro ⟨⟩
      · rw [run, hstep]
        refine not_ok_of_lacking hcovered hlacking fuel (h.next hqueue _) ?_
        rw [hqueue, List.mem_cons] at hi
        rw [putBackNext, List.mem_append, List.mem_replicate]
        rcases hi with rfl | hrest
        · exact Or.inr ⟨hlacking, rfl⟩
        · exact Or.inl hrest

/-- The loop ends. It takes an index that lacks nothing out of the queue, or goes on for as many
turns without one as there are parameters. -/
theorem result_of_putBack (hcovered : Covered names parameterDependencies) (s : ParameterQueue)
    (h : PutBack names parameterDependencies s)
    (hlength : s.lastIndexLength = s.indexToResolve.length) :
    (∃ order, Result names parameterDependencies s (.ok order)) ∨
      Result names parameterDependencies s (.error .unresolved) := by
  cases hqueue : s.indexToResolve with
  | nil => exact Or.inl ⟨_, (result_of_empty hqueue).2 rfl⟩
  | cons index rest =>
    rw [hqueue, List.length_cons] at hlength
    have hstep := h.step hcovered hqueue rfl
    by_cases hlacking : lacking names parameterDependencies index = 0
    · rw [if_pos (by omega : rest.length + _ < s.lastIndexLength), if_neg (by omega)] at hstep
      simp only [result_of_next hstep]
      exact result_of_putBack hcovered _ (h.next hqueue _) rfl
    · rw [if_neg (by omega : ¬ rest.length + _ < s.lastIndexLength)] at hstep
      split at hstep
      · exact Or.inr ((result_of_error hstep).2 rfl)
      · simp only [result_of_next hstep]
        exact result_of_putBack hcovered _ (h.next hqueue _) rfl
termination_by
  (s.indexToResolve.countP fun i => lacking names parameterDependencies i = 0,
    (s.lastIndexReduction + names.length - s.iterations).toNat)
decreasing_by
  · refine Prod.Lex.left _ _ ?_
    simp only [putBackNext, hqueue, hlacking, List.replicate_zero, List.append_nil,
      List.countP_cons, decide_true, if_true]
    omega
  · refine Prod.lex_def.2 (Or.inr ⟨?_, ?_⟩)
    · simp only [putBackNext, hqueue, List.countP_append, List.countP_replicate, List.countP_cons,
        hlacking, decide_false, Bool.false_eq_true, if_false, Nat.add_zero]
    · simp only [putBackNext]
      omega

end PutBack

/-! ## The order -/

section Order

variable {names parameterDependencies}

theorem length_missingDependencies_eq_zero {resolved dependencies : List String} :
    (missingDependencies resolved dependencies).length = 0 ↔
      ∀ dependency ∈ dependencies, isRootParameter dependency = false → dependency ∈ resolved := by
  simp only [missingDependencies, List.length_eq_zero_iff, List.filter_eq_nil_iff,
    decide_eq_true_eq, Bool.not_eq_true', not_and]
  exact forall₂_congr fun _ _ => ⟨fun h hroot => by_contra fun hnot => h hnot hroot,
    fun h hnot hroot => hnot (h hroot)⟩

theorem waiting_eq_zero {j : ℕ} : waiting names parameterDependencies j = 0 ↔
    ∀ dependency ∈ dependenciesAt names parameterDependencies j,
      isRootParameter dependency = false → dependency ∈ names.take j :=
  length_missingDependencies_eq_zero

theorem lacking_eq_zero {j : ℕ} : lacking names parameterDependencies j = 0 ↔
    ∀ dependency ∈ dependenciesAt names parameterDependencies j,
      isRootParameter dependency = false → dependency ∈ names :=
  length_missingDependencies_eq_zero

theorem idxOf_range {i n : ℕ} (hi : i < n) : (List.range n).idxOf i = i := by
  have hlt : i < (List.range n).length := by rwa [List.length_range]
  have hget := List.nodup_range.idxOf_getElem i hlt
  rwa [List.getElem_range] at hget

theorem mem_drop_iff {name : String} {j : ℕ} :
    name ∈ names.drop j ↔ ∃ i < names.length, j ≤ i ∧ nameAt names i = name := by
  rw [List.mem_drop_iff_getElem]
  constructor
  · rintro ⟨i, hi, rfl⟩
    exact ⟨i + j, hi, Nat.le_add_left j i,
      (nameAt_of_lt hi).trans (getElem_congr_idx (Nat.add_comm i j))⟩
  · rintro ⟨i, hi, hle, rfl⟩
    obtain ⟨k, rfl⟩ := Nat.exists_eq_add_of_le' hle
    exact ⟨k, hi, (getElem_congr_idx (Nat.add_comm j k)).trans (nameAt_of_lt hi).symm⟩

theorem Resolves.inOrder (h : Resolves names parameterDependencies
    (List.range names.length ++ requeued names parameterDependencies names.length)) :
    InOrder names parameterDependencies := by
  have hrequeued : requeued names parameterDependencies names.length = [] := by
    have hlength := h.perm.length_eq
    rw [List.length_append, List.length_range] at hlength
    exact List.length_eq_zero_iff.1 (by omega)
  have hafter := h.after
  rw [hrequeued, List.append_nil] at hafter
  intro j hj dependency hdependency hroot
  constructor
  · have hnone : waiting names parameterDependencies j = 0 := by
      by_contra hwaits
      have hmem := mem_requeued.2 ⟨hj, hwaits⟩
      rw [hrequeued] at hmem
      cases hmem
    exact waiting_eq_zero.1 hnone dependency hdependency hroot
  · intro hdrop
    obtain ⟨i, hi, hle, rfl⟩ := mem_drop_iff.1 hdrop
    have hlt := hafter i hi j hj ⟨hdependency, hroot⟩
    rw [idxOf_range hi, idxOf_range hj] at hlt
    omega

theorem InOrder.resolves (h : InOrder names parameterDependencies) :
    Resolves names parameterDependencies
      (List.range names.length ++ requeued names parameterDependencies names.length) := by
  have hrequeued : requeued names parameterDependencies names.length = [] := by
    refine List.eq_nil_iff_forall_not_mem.2 fun j hj => ?_
    rw [mem_requeued] at hj
    exact hj.2 (waiting_eq_zero.2 fun dependency hdependency hroot =>
      (h j hj.1 dependency hdependency hroot).1)
  rw [hrequeued, List.append_nil]
  refine ⟨List.Perm.refl _, fun i hi j hj hdepends => ?_⟩
  rw [idxOf_range hi, idxOf_range hj]
  by_contra hnot
  exact (h j hj _ hdepends.1 hdepends.2).2 (mem_drop_iff.2 ⟨i, hi, by omega, rfl⟩)

/-- The last parameter depends on itself, or on none of the list. -/
theorem Stuck.not_resolvable (h : Stuck names parameterDependencies) :
    ¬ Resolvable names parameterDependencies := by
  rintro ⟨hpresent, order, horder⟩
  obtain ⟨hnames, hne, hstalls⟩ := h
  have hpos : 0 < names.length := List.length_pos_of_ne_nil hnames
  have hlast : names.length - 1 < names.length := by omega
  have hwaits : waiting names parameterDependencies (names.length - 1) ≠ 0 := by
    have := hstalls _ hlast hne
    omega
  rw [ne_eq, waiting_eq_zero] at hwaits
  push Not at hwaits
  obtain ⟨dependency, hdependency, hroot, hlater⟩ := hwaits
  have hmem := hpresent _ hlast dependency hdependency hroot
  rw [← List.take_append_drop (names.length - 1) names, List.mem_append] at hmem
  obtain ⟨i, hi, hle, rfl⟩ := mem_drop_iff.1 (hmem.resolve_left hlater)
  obtain rfl : i = names.length - 1 := by omega
  exact lt_irrefl _ (horder.after _ hlast _ hlast ⟨hdependency, hroot⟩)

/-- Where no order is right, what a parameter lacks ends the loop. -/
theorem Visited.unresolved {s : ParameterQueue}
    (h : Visited names parameterDependencies names.length s)
    (hcovered : Covered names parameterDependencies)
    (hpresent : ¬ Present names parameterDependencies) :
    Result names parameterDependencies s (.error .unresolved) := by
  obtain ⟨j, hj, hlacking⟩ : ∃ j < names.length, lacking names parameterDependencies j ≠ 0 := by
    by_contra hnone
    push Not at hnone
    exact hpresent fun j hj => lacking_eq_zero.1 (hnone j hj)
  have hwaits : waiting names parameterDependencies j ≠ 0 := fun hzero =>
    hlacking (lacking_eq_zero.2 fun dependency hdependency hroot =>
      List.mem_of_mem_take (waiting_eq_zero.1 hzero dependency hdependency hroot))
  have hmem : j ∈ s.indexToResolve := by
    rw [h.queue_end]
    exact mem_requeued.2 ⟨hj, hwaits⟩
  have hnot : ¬ ∃ order, Result names parameterDependencies s (.ok order) := by
    rintro ⟨order, fuel, hrun⟩
    exact not_ok_of_lacking hcovered hlacking fuel h.putBack hmem hrun
  cases hqueue : s.indexToResolve with
  | nil =>
    rw [hqueue] at hmem
    cases hmem
  | cons index rest =>
    obtain ⟨reduction, hreduction⟩ : ∃ reduction : ℤ, reduction =
        if rest.length + lacking names parameterDependencies index < s.lastIndexLength then
          ((s.iterations + 1 : ℕ) : ℤ)
        else s.lastIndexReduction := ⟨_, rfl⟩
    have hstep := h.putBack.step hcovered hqueue hreduction
    split at hstep
    · exact (result_of_error hstep).2 rfl
    · simp only [result_of_next hstep] at hnot ⊢
      exact (result_of_putBack hcovered _ (h.putBack.next hqueue _) rfl).resolve_left hnot

theorem Visited.ordered {s : ParameterQueue}
    (h : Visited names parameterDependencies names.length s)
    (hcovered : Covered names parameterDependencies)
    (hpresent : Present names parameterDependencies) :
    Result names parameterDependencies s
      (.ok (List.range names.length ++ requeued names parameterDependencies names.length)) := by
  have hresult := result_of_present hcovered s.indexToResolve rfl h.putBack
    (by rw [h.last]; exact Nat.le_add_right _ _)
    fun i hi => lacking_eq_zero.2 (hpresent i (h.putBack.queue i hi).1)
  rwa [h.order, h.queue_end] at hresult

end Order

/-- The order is right exactly if the table has something for each parameter, and each comes after
all that it depends on already, or depends on what is not in the list, or no parameter with
dependencies made the queue shorter. -/
theorem orderCorrect_iff (nodePropertiesArray : List NodeProperties)
    (parameterDependencies : String → Option (List String)) :
    OrderCorrect nodePropertiesArray parameterDependencies ↔
      Covered (nodePropertiesArray.map (·.name)) parameterDependencies ∧
        (InOrder (nodePropertiesArray.map (·.name)) parameterDependencies ∨
          ¬ Present (nodePropertiesArray.map (·.name)) parameterDependencies ∨
          Stuck (nodePropertiesArray.map (·.name)) parameterDependencies) := by
  unfold OrderCorrect getParameterResolveOrder
  generalize nodePropertiesArray.map (·.name) = names
  simp only
  by_cases hcovered : Covered names parameterDependencies
  · simp only [hcovered, true_and]
    rcases visited_of_covered names.length le_rfl hcovered with
      ⟨s, hvisited, hresult, hstuck⟩ | ⟨-, hstuck, hresult⟩
    · by_cases hpresent : Present names parameterDependencies
      · obtain ⟨fuel, hrun⟩ := (hresult _).2 (hvisited.ordered hcovered hpresent)
        simp only [hpresent, not_true_eq_false, hstuck rfl, or_false]
        constructor
        · rintro (⟨⟨fuel', hrun'⟩, -⟩ | ⟨order, hresult', hresolves⟩)
          · cases result_unique hrun ⟨fuel', hrun'⟩
          · cases result_unique hrun hresult'
            exact hresolves.inOrder
        · exact fun hinOrder => Or.inr ⟨_, ⟨fuel, hrun⟩, hinOrder.resolves⟩
      · exact iff_of_true
          (Or.inl ⟨(hresult _).2 (hvisited.unresolved hcovered hpresent), fun h => hpresent h.1⟩)
          (Or.inr (Or.inl hpresent))
    · exact iff_of_true (Or.inl ⟨hresult, hstuck.not_resolvable⟩) (Or.inr (Or.inr hstuck))
  · obtain ⟨fuel, hrun⟩ := noDependencies_of_not_covered hcovered
    simp only [hcovered, false_and, iff_false]
    rintro (⟨hresult, -⟩ | ⟨order, hresult, -⟩) <;> cases result_unique hrun hresult

/-- A parameter that depends on a later one is given twice. -/
theorem not_orderCorrect_of_later : ¬ OrderCorrect
    [{ name := "mode" }, { name := "operation", displayOptions := some [["resource"]] },
      { name := "resource" }]
    (fun name => if name = "operation" then some ["resource"] else some []) := by
  have hrun : Result ["mode", "operation", "resource"]
      (fun name => if name = "operation" then some ["resource"] else some [])
      (start ["mode", "operation", "resource"]) (.ok [0, 1, 2, 1]) := ⟨5, rfl⟩
  rintro (⟨⟨fuel, herror⟩, -⟩ | ⟨order, ⟨fuel, hok⟩, hresolves⟩)
  · cases result_unique herror hrun
  · cases result_unique hok hrun
    have hlength := hresolves.perm.length_eq
    simp at hlength

end N8n.ParameterQueue
