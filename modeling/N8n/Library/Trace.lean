import Mathlib.Tactic

/-!
# Tracing back over branches

At each point a trace has arrived, has failed, or goes on over branches. What the branches come to
is put together: the results that are found must agree, and an error counts only where there is no
result.

`Reaches` is what is found along some branch. `right_iff` says when a trace finds an item exactly
where that is the only one reached, and throws proper errors otherwise.
-/

namespace Trace

variable {P X E : Type*}

/-- What a point is. -/
inductive Station (P X E : Type*)
  | arrived (x : X)
  | failed (e : E)
  | branches (points : List P)

/-- An item is reached from a point, along some way. -/
inductive Reaches (Arrives : P → X → Prop) (Parent : P → P → Prop) : P → X → Prop
  | arrived {p x} : Arrives p x → Reaches Arrives Parent p x
  | branch {p q x} : Parent p q → Reaches Arrives Parent q x → Reaches Arrives Parent p x

/-- The one item that is reached. -/
def Unique (Arrives : P → X → Prop) (Parent : P → P → Prop) (p : P) (x : X) : Prop :=
  Reaches Arrives Parent p x ∧ ∀ y, Reaches Arrives Parent p y → y = x

/-- The branches that reach one item agree on it, but another reaches something else as well. -/
def Hides (Arrives : P → X → Prop) (Parent : P → P → Prop) (p : P) : Prop :=
  ∃ x, (∃ q, Parent p q ∧ Unique Arrives Parent q x) ∧
    (∀ q, Parent p q → ∀ y, Unique Arrives Parent q y → y = x) ∧
    ∃ q, Parent p q ∧ ∃ y, Reaches Arrives Parent q y ∧ y ≠ x

section Relations

variable {Arrives : P → X → Prop} {Parent : P → P → Prop}

theorem reaches_iff {p : P} {x : X} : Reaches Arrives Parent p x ↔
    Arrives p x ∨ ∃ q, Parent p q ∧ Reaches Arrives Parent q x := by
  constructor
  · rintro (h | ⟨h, hq⟩)
    · exact .inl h
    · exact .inr ⟨_, h, hq⟩
  · rintro (h | ⟨q, h, hq⟩)
    · exact .arrived h
    · exact .branch h hq

end Relations

/-! ## Stations -/

section Stations

variable (station : P → Station P X E)

def Arrives (p : P) (x : X) : Prop := station p = .arrived x

def Parent (p q : P) : Prop := ∃ points, station p = .branches points ∧ q ∈ points

variable {station}

theorem not_reaches_of_failed {p : P} {e : E} (h : station p = .failed e) (x : X) :
    ¬ Reaches (Arrives station) (Parent station) p x := by
  rintro (harrives | ⟨⟨points, hpoints, -⟩, -⟩)
  · cases h.symm.trans harrives
  · cases h.symm.trans hpoints

theorem reaches_of_arrived {p : P} {x y : X} (h : station p = .arrived x) :
    Reaches (Arrives station) (Parent station) p y ↔ y = x := by
  constructor
  · rintro (harrives | ⟨⟨points, hpoints, -⟩, -⟩)
    · exact Station.arrived.inj (harrives.symm.trans h)
    · cases h.symm.trans hpoints
  · rintro rfl
    exact .arrived h

theorem reaches_of_branches {p : P} {points : List P} {y : X} (h : station p = .branches points) :
    Reaches (Arrives station) (Parent station) p y ↔
      ∃ q ∈ points, Reaches (Arrives station) (Parent station) q y := by
  rw [reaches_iff]
  constructor
  · rintro (harrives | ⟨q, ⟨points', hpoints, hq⟩, hreaches⟩)
    · cases h.symm.trans harrives
    · obtain rfl := Station.branches.inj (h.symm.trans hpoints)
      exact ⟨q, hq, hreaches⟩
  · rintro ⟨q, hq, hreaches⟩
    exact .inr ⟨q, ⟨points, h, hq⟩, hreaches⟩

end Stations

/-! ## Putting the branches together -/

section Merge

def found : Except E X → Option X
  | .ok x => some x
  | .error _ => none

theorem mem_found {results : List (Except E X)} {x : X} :
    x ∈ results.filterMap found ↔ .ok x ∈ results := by
  rw [List.mem_filterMap]
  constructor
  · rintro ⟨result, hmem, hfound⟩
    cases result with
    | ok y => exact Option.some.inj hfound ▸ hmem
    | error e => cases hfound
  · exact fun h => ⟨_, h, rfl⟩

variable [DecidableEq X]

/-- The results that are found, if they agree; else the first error. -/
def merge (ambiguous empty : E) (results : List (Except E X)) : Except E X :=
  match results.filterMap found with
  | x :: xs => if xs.any (· ≠ x) then .error ambiguous else .ok x
  | [] =>
    match results with
    | .error e :: _ => .error e
    | _ => .error empty

theorem merge_eq_ok {ambiguous empty : E} {results : List (Except E X)} {x : X} :
    merge ambiguous empty results = .ok x ↔
      .ok x ∈ results ∧ ∀ y, .ok y ∈ results → y = x := by
  simp only [← mem_found]
  unfold merge
  cases hfound : results.filterMap found with
  | nil =>
    simp only [List.not_mem_nil, false_and, iff_false]
    rcases results with _ | ⟨e | y, results⟩ <;> simp
  | cons y ys =>
    dsimp only
    split_ifs with hany
    · simp only [List.mem_cons, false_iff, not_and, not_forall]
      intro hx
      obtain ⟨z, hz, hne⟩ := List.any_eq_true.1 hany
      by_contra hall
      push Not at hall
      exact of_decide_eq_true hne ((hall z (.inr hz)).trans (hall y (.inl rfl)).symm)
    · simp only [List.any_eq_true, decide_eq_true_eq, not_exists, not_and, not_not] at hany
      simp only [Except.ok.injEq, List.mem_cons]
      constructor
      · rintro rfl
        exact ⟨.inl rfl, fun z hz => hz.elim id (hany z)⟩
      · rintro ⟨-, hall⟩
        exact hall y (.inl rfl)

theorem merge_eq_error {ambiguous empty e : E} {results : List (Except E X)}
    (h : merge ambiguous empty results = .error e) :
    e = ambiguous ∨ results = [] ∧ e = empty ∨ .error e ∈ results := by
  unfold merge at h
  cases hfound : results.filterMap found with
  | nil =>
    rw [hfound] at h
    rcases results with _ | ⟨e' | x, results⟩
    · exact .inr (.inl ⟨rfl, (Except.error.inj h).symm⟩)
    · exact .inr (.inr (Except.error.inj h ▸ List.mem_cons_self))
    · cases hfound
  | cons x xs =>
    rw [hfound] at h
    dsimp only at h
    split_ifs at h
    exact .inl (Except.error.inj h).symm

/-- Where nothing is found, the error is that of the first branch. -/
theorem merge_of_not_found {ambiguous empty : E} {result : Except E X} {results : List (Except E X)}
    (h : ∀ x, .ok x ∉ result :: results) : merge ambiguous empty (result :: results) = result := by
  have hnil : (result :: results).filterMap found = [] :=
    List.eq_nil_iff_forall_not_mem.2 fun x hx => h x (mem_found.1 hx)
  unfold merge
  rw [hnil]
  cases result with
  | ok x => exact absurd List.mem_cons_self (h x)
  | error e => rfl

/-- Where what is found does not agree, the result is ambiguous. -/
theorem merge_of_ne {ambiguous empty : E} {results : List (Except E X)} {x y : X}
    (hx : .ok x ∈ results) (hy : .ok y ∈ results) (hne : x ≠ y) :
    merge ambiguous empty results = .error ambiguous := by
  have hok : ∀ z, merge ambiguous empty results = .ok z ↔
      .ok z ∈ results ∧ ∀ y, .ok y ∈ results → y = z := fun _ => merge_eq_ok
  unfold merge at hok ⊢
  cases hfound : results.filterMap found with
  | nil =>
    have hmem := mem_found.2 hx
    rw [hfound] at hmem
    cases hmem
  | cons z zs =>
    rw [hfound] at hok
    dsimp only at hok ⊢
    split_ifs at hok ⊢
    · rfl
    · obtain ⟨-, hall⟩ := (hok z).1 rfl
      exact absurd ((hall x hx).trans (hall y hy).symm) hne

end Merge

/-! ## Tracing -/

section Resolve

variable [DecidableEq X] (station : P → Station P X E) (ambiguous : P → E) (empty exhausted : E)

/-- The trace from a point, with a bound on its depth. -/
def resolve : ℕ → P → Except E X
  | 0, _ => .error exhausted
  | depth + 1, p =>
    match station p with
    | .arrived x => .ok x
    | .failed e => .error e
    | .branches points => merge (ambiguous p) empty (points.map (resolve depth))

/-- What a trace without a bound would satisfy. -/
def Follows (f : P → Except E X) : Prop :=
  ∀ p, f p = match station p with
    | .arrived x => .ok x
    | .failed e => .error e
    | .branches points => merge (ambiguous p) empty (points.map f)

variable {station ambiguous empty exhausted}

section Rank

variable {rank : P → ℕ} (hrank : ∀ p q, Parent station p q → rank q < rank p)
include hrank

/-- Any depth beyond the rank of a point gives the same. -/
theorem resolve_eq_of_lt {p : P} {n m : ℕ} (hn : rank p < n) (hm : rank p < m) :
    resolve station ambiguous empty exhausted n p =
      resolve station ambiguous empty exhausted m p := by
  induction n generalizing p m with
  | zero => omega
  | succ n ih =>
    obtain ⟨m, rfl⟩ : ∃ k, m = k + 1 := ⟨m - 1, by omega⟩
    unfold resolve
    cases hstation : station p with
    | branches points =>
      have hsame : ∀ q ∈ points, resolve station ambiguous empty exhausted n q =
          resolve station ambiguous empty exhausted m q := fun q hq => by
        have hlt := hrank p q ⟨points, hstation, hq⟩
        exact ih (by omega) (by omega)
      dsimp only
      rw [List.map_congr_left hsame]
    | _ => rfl

/-- With a bound beyond all ranks, the bound does not show. -/
theorem resolve_follows {depth : ℕ} (hdepth : ∀ p, rank p < depth) :
    Follows station ambiguous empty (resolve station ambiguous empty exhausted depth) := by
  intro p
  obtain ⟨depth, rfl⟩ : ∃ k, depth = k + 1 := ⟨depth - 1, by have := hdepth p; omega⟩
  rw [resolve]
  cases hstation : station p with
  | branches points =>
    have hsame : ∀ q ∈ points, resolve station ambiguous empty exhausted depth q =
        resolve station ambiguous empty exhausted (depth + 1) q := fun q hq => by
      have hlt := hrank p q ⟨points, hstation, hq⟩
      have hle := hdepth p
      exact resolve_eq_of_lt hrank (by omega) (hdepth q)
    dsimp only
    rw [List.map_congr_left hsame]
  | _ => rfl

end Rank

/-- The result is the one item that is reached, and where there is none, a proper error. -/
def Right (station : P → Station P X E) (Proper : E → Prop) (p : P) (result : Except E X) : Prop :=
  (∀ x, result = .ok x ↔ Unique (Arrives station) (Parent station) p x) ∧
    ((∀ x, ¬ Unique (Arrives station) (Parent station) p x) → ∃ e, result = .error e ∧ Proper e)

/-- The point does not fail improperly, has branches if it goes on, and hides nothing. -/
def Sound (station : P → Station P X E) (empty : E) (Proper : E → Prop) (p : P) : Prop :=
  (∀ e, station p = .failed e → Proper e) ∧ (station p = .branches [] → Proper empty) ∧
    ¬ Hides (Arrives station) (Parent station) p

variable {Proper : E → Prop} {f : P → Except E X} (hf : Follows station ambiguous empty f)
include hf

/-- A point that is right, with branches that are, is sound. -/
theorem sound_of_right {p : P} (hp : Right station Proper p (f p))
    (hbranches : ∀ q, Parent station p q → Right station Proper q (f q)) :
    Sound station empty Proper p := by
  have heq := hf p
  refine ⟨fun e hfailed => ?_, fun hnone => ?_, ?_⟩
  · rw [hfailed] at heq
    obtain ⟨e', he', hproper⟩ := hp.2 fun x hx => not_reaches_of_failed hfailed x hx.1
    exact Except.error.inj (heq.symm.trans he') ▸ hproper
  · rw [hnone] at heq
    have hnot : ∀ x, ¬ Unique (Arrives station) (Parent station) p x := fun x hx => by
      obtain ⟨q, hq, -⟩ := (reaches_of_branches hnone).1 hx.1
      cases hq
    obtain ⟨e', he', hproper⟩ := hp.2 hnot
    exact Except.error.inj (heq.symm.trans he') ▸ hproper
  · rintro ⟨x, ⟨q, hq, hx⟩, hagree, r, hr, y, hy, hne⟩
    obtain ⟨points, hpoints, hmem⟩ := id hq
    have hok : f p = .ok x := by
      rw [heq, hpoints]
      refine merge_eq_ok.2 ⟨List.mem_map.2 ⟨q, hmem, ((hbranches q hq).1 x).2 hx⟩, fun z hz => ?_⟩
      obtain ⟨q', hq', hz⟩ := List.mem_map.1 hz
      have hparent : Parent station p q' := ⟨points, hpoints, hq'⟩
      exact hagree q' hparent z (((hbranches q' hparent).1 z).1 hz)
    exact hne (((hp.1 x).1 hok).2 y (.branch hr hy))

/-- A point that is sound, with branches that are right, is right. -/
theorem right_of_sound (hambiguous : ∀ p, Proper (ambiguous p)) {p : P}
    (hp : Sound station empty Proper p)
    (hbranches : ∀ q, Parent station p q → Right station Proper q (f q)) :
    Right station Proper p (f p) := by
  have heq := hf p
  cases hstation : station p with
  | arrived x =>
    rw [hstation] at heq
    have hunique : ∀ y, Unique (Arrives station) (Parent station) p y ↔ y = x := fun y => by
      unfold Unique
      simp only [reaches_of_arrived hstation]
      exact ⟨fun h => h.1, fun h => ⟨h, fun z hz => hz.trans h.symm⟩⟩
    refine ⟨fun y => ?_, fun hnot => absurd ((hunique x).2 rfl) (hnot x)⟩
    rw [heq, hunique, Except.ok.injEq, eq_comm]
  | failed e =>
    rw [hstation] at heq
    have hnot : ∀ x, ¬ Unique (Arrives station) (Parent station) p x := fun x hx =>
      not_reaches_of_failed hstation x hx.1
    refine ⟨fun x => iff_of_false ?_ (hnot x), fun _ => ⟨e, heq, hp.1 e hstation⟩⟩
    rw [heq]
    exact nofun
  | branches points =>
    rw [hstation] at heq
    have hright : ∀ q ∈ points, Right station Proper q (f q) := fun q hq =>
      hbranches q ⟨points, hstation, hq⟩
    have hfound : ∀ x, .ok x ∈ points.map f ↔
        ∃ q ∈ points, Unique (Arrives station) (Parent station) q x := fun x => by
      rw [List.mem_map]
      exact exists_congr fun q => and_congr_right fun hq => (hright q hq).1 x
    have hok : ∀ x, f p = .ok x ↔ Unique (Arrives station) (Parent station) p x := by
      intro x
      rw [heq, merge_eq_ok, hfound]
      constructor
      · rintro ⟨⟨q, hq, hx⟩, hagree⟩
        refine ⟨(reaches_of_branches hstation).2 ⟨q, hq, hx.1⟩, fun y hy => ?_⟩
        by_contra hne
        obtain ⟨r, hr, hy⟩ := (reaches_of_branches hstation).1 hy
        refine hp.2.2 ⟨x, ⟨q, ⟨points, hstation, hq⟩, hx⟩, ?_, r, ⟨points, hstation, hr⟩, y, hy,
          hne⟩
        rintro q' ⟨points', hpoints', hq'⟩ z hz
        obtain rfl := Station.branches.inj (hstation.symm.trans hpoints')
        exact hagree z ((hfound z).2 ⟨q', hq', hz⟩)
      · rintro ⟨hx, hall⟩
        obtain ⟨q, hq, hx⟩ := (reaches_of_branches hstation).1 hx
        have hbelow : ∀ q ∈ points, ∀ y, Reaches (Arrives station) (Parent station) q y → y = x :=
          fun q hq y hy => hall y ((reaches_of_branches hstation).2 ⟨q, hq, hy⟩)
        refine ⟨⟨q, hq, hx, hbelow q hq⟩, fun y hy => ?_⟩
        obtain ⟨q', hq', hy⟩ := (hfound y).1 hy
        exact hbelow q' hq' y hy.1
    refine ⟨hok, fun hnot => ?_⟩
    -- nothing is found, or two branches find different items
    rcases points with _ | ⟨q, points⟩
    · exact ⟨empty, heq, hp.2.1 hstation⟩
    by_cases hnone : ∀ x, .ok x ∉ (q :: points).map f
    · have hfirst : ∀ x, ¬ Unique (Arrives station) (Parent station) q x := fun x hx =>
        hnone x ((hfound x).2 ⟨q, List.mem_cons_self, hx⟩)
      obtain ⟨e, he, hproper⟩ := (hright q List.mem_cons_self).2 hfirst
      exact ⟨e, heq.trans ((merge_of_not_found hnone).trans he), hproper⟩
    · push Not at hnone
      obtain ⟨x, hx⟩ := hnone
      have hother : ∃ y, .ok y ∈ (q :: points).map f ∧ y ≠ x := by
        by_contra hall
        push Not at hall
        exact hnot x ((hok x).1 (heq.trans (merge_eq_ok.2 ⟨hx, hall⟩)))
      obtain ⟨y, hy, hne⟩ := hother
      exact ⟨ambiguous p, heq.trans (merge_of_ne hx hy (Ne.symm hne)), hambiguous p⟩

variable {rank : P → ℕ} (hrank : ∀ p q, Parent station p q → rank q < rank p)
include hrank

/-- What a trace finds is reached. -/
theorem reaches_of_eq_ok {p : P} {x : X} (h : f p = .ok x) :
    Reaches (Arrives station) (Parent station) p x := by
  induction hn : rank p using Nat.strong_induction_on generalizing p with
  | _ n ih =>
    subst hn
    have heq := (hf p).symm.trans h
    cases hstation : station p with
    | arrived y =>
      rw [hstation] at heq
      exact .arrived (hstation.trans (congrArg _ (Except.ok.inj heq)))
    | failed e =>
      rw [hstation] at heq
      cases heq
    | branches points =>
      rw [hstation] at heq
      obtain ⟨q, hq, hx⟩ := List.mem_map.1 (merge_eq_ok.1 heq).1
      have hparent : Parent station p q := ⟨points, hstation, hq⟩
      exact .branch hparent (ih _ (hrank p q hparent) hx rfl)

/-- The one item that is reached is found. -/
theorem eq_ok_of_unique {p : P} {x : X} (h : Unique (Arrives station) (Parent station) p x) :
    f p = .ok x := by
  induction hn : rank p using Nat.strong_induction_on generalizing p with
  | _ n ih =>
    subst hn
    rw [hf p]
    cases hstation : station p with
    | arrived y => rw [(reaches_of_arrived hstation).1 h.1]
    | failed e => exact absurd h.1 (not_reaches_of_failed hstation x)
    | branches points =>
      obtain ⟨q, hq, hx⟩ := (reaches_of_branches hstation).1 h.1
      have hparent : Parent station p q := ⟨points, hstation, hq⟩
      refine merge_eq_ok.2 ⟨List.mem_map.2 ⟨q, hq, ?_⟩, fun y hy => ?_⟩
      · exact ih _ (hrank p q hparent) ⟨hx, fun y hy => h.2 y (.branch hparent hy)⟩ rfl
      · obtain ⟨r, hr, hy⟩ := List.mem_map.1 hy
        exact h.2 y (.branch ⟨points, hstation, hr⟩ (reaches_of_eq_ok hf hrank hy))

/-- An error comes from a point on the way back. -/
theorem point_of_eq_error {p : P} {e : E} (h : f p = .error e) :
    ∃ q, Relation.ReflTransGen (Parent station) p q ∧
      (station q = .failed e ∨ station q = .branches [] ∧ e = empty ∨ e = ambiguous q) := by
  induction hn : rank p using Nat.strong_induction_on generalizing p with
  | _ n ih =>
    subst hn
    have heq := (hf p).symm.trans h
    cases hstation : station p with
    | arrived x =>
      rw [hstation] at heq
      cases heq
    | failed e' =>
      rw [hstation] at heq
      exact ⟨p, .refl, .inl (hstation.trans (congrArg _ (Except.error.inj heq)))⟩
    | branches points =>
      rw [hstation] at heq
      rcases merge_eq_error heq with hambiguous | ⟨hnil, hempty⟩ | hmem
      · exact ⟨p, .refl, .inr (.inr hambiguous)⟩
      · obtain rfl := List.map_eq_nil_iff.1 hnil
        exact ⟨p, .refl, .inr (.inl ⟨hstation, hempty⟩)⟩
      · obtain ⟨q, hq, he⟩ := List.mem_map.1 hmem
        have hparent : Parent station p q := ⟨points, hstation, hq⟩
        obtain ⟨r, hr, hpoint⟩ := ih _ (hrank p q hparent) he rfl
        exact ⟨r, .head hparent hr, hpoint⟩

/-- On the whole way back from a point the trace is right exactly when every point is sound. -/
theorem right_iff (hambiguous : ∀ p, Proper (ambiguous p)) (p : P) :
    (∀ q, Relation.ReflTransGen (Parent station) p q → Right station Proper q (f q)) ↔
      ∀ q, Relation.ReflTransGen (Parent station) p q → Sound station empty Proper q := by
  constructor
  · exact fun h q hq => sound_of_right hf (h q hq) fun r hr => h r (hq.tail hr)
  · intro h q hq
    induction hn : rank q using Nat.strong_induction_on generalizing q with
    | _ n ih =>
      subst hn
      exact right_of_sound hf hambiguous (h q hq) fun r hr =>
        ih (rank r) (hrank q r hr) r (hq.tail hr) rfl

end Resolve

end Trace
