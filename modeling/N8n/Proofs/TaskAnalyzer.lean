import N8n.TaskAnalyzer

/-!
# What the visitor sees

The visitor looks at names and attributes as expressions. A class pattern and a from-import read
attributes by names that are no expressions.
-/

namespace N8n

namespace TaskAnalyzer

open PythonAst

section Visitor

variable (stdlibModuleNames : List String) (config : SecurityConfig)

/-! ## What a module reads and imports -/

/-- The attributes that are read by a name in another place than an attribute expression: the
keywords of a class pattern, and what is imported from a module. -/
def otherAttributes : Node → List String
  | .pattern (.MatchClass _ _ kwdAttrs _) => kwdAttrs
  | .stmt (.ImportFrom _ names _ _) => names.map (·.name)
  | _ => []

/-- The attributes that a node reads by name. -/
def readAttributes : Node → List String
  | .expr (.Attribute _ attr _) => [attr]
  | node => otherAttributes node

def readNames : Node → List String
  | .expr (.Name id _) => [id]
  | _ => []

/-- What is imported: a module, one relative to the package, or the value of an expression. -/
inductive Imported
  | absolute (modulePath : String)
  | relative
  | dynamic
  deriving DecidableEq, Repr

/-- The function is `__import__`, of the builtins or any other object. -/
def isImportFunction : Expr → Bool
  | .Name id _ => id = "__import__"
  | .Attribute _ attr _ => attr = "__import__"
  | _ => false

def imports : Node → List Imported
  | .stmt (.Import names _) => names.map fun name => .absolute name.name
  | .stmt (.ImportFrom source _ level _) =>
    if level > 0 then [.relative] else (source.toList.filter (· ≠ "")).map .absolute
  | .expr (.Call func args _ _) =>
    if isImportFunction func then
      match args with
      | .Constant (.str modulePath) :: _ => [.absolute modulePath]
      | _ => [.dynamic]
    else []
  | _ => []

/-- The allowlists have the module, or all of its kind. -/
def Allowed (name : String) : Prop :=
  if name ∈ stdlibModuleNames then "*" ∈ config.stdlibAllow ∨ name ∈ config.stdlibAllow
  else "*" ∈ config.externalAllow ∨ name ∈ config.externalAllow

def Permitted : Imported → Prop
  | .absolute modulePath =>
    modulePath.startsWith "." = false ∧ Allowed stdlibModuleNames config (moduleName modulePath)
  | .relative | .dynamic => False

/-- No node of the module reads what is blocked or imports what is not permitted. -/
def Safe (tree : Module) : Prop :=
  ∀ node ∈ (Node.module tree).walk, (∀ id ∈ readNames node, id ∉ blockedNames) ∧
    (∀ attr ∈ readAttributes node, attr ∉ blockedAttributes) ∧
    ∀ imported ∈ imports node, Permitted stdlibModuleNames config imported

/-- The visitor has nothing against the node. -/
def Passes : Node → Prop
  | .stmt (.Import names _) =>
    ∀ name ∈ names, Permitted stdlibModuleNames config (.absolute name.name)
  | .stmt (.ImportFrom source _ level _) =>
    level = 0 ∧ ∀ modulePath, source = some modulePath → modulePath ≠ "" →
      Permitted stdlibModuleNames config (.absolute modulePath)
  | .expr (.Name id _) => id ∉ blockedNames
  | .expr (.Attribute _ attr _) =>
    attr ∉ blockedAttributes ∧ SecurityValidator.isNameMangled attr = false
  | .expr (.Call func args _ _) => SecurityValidator.isImportCall func →
    ∃ modulePath rest, args = .Constant (.str modulePath) :: rest ∧
      Permitted stdlibModuleNames config (.absolute modulePath)
  | .expr (.Subscript value slice _) => SecurityValidator.isBuiltinsAccess value →
    ∀ key, slice = .Constant (.str key) → key ∉ blockedAttributes
  | _ => True

variable {stdlibModuleNames config}

/-! ## Imports -/

variable (stdlibModuleNames config) in
theorem validateModuleImport_fst (modulePath : String) :
    (validateModuleImport stdlibModuleNames config modulePath).1 = true ↔
      Allowed stdlibModuleNames config (moduleName modulePath) := by
  unfold validateModuleImport Allowed
  dsimp only
  split_ifs with hstdlib <;> simp_all

namespace SecurityValidator

variable {v v' v'' : SecurityValidator}

variable (stdlibModuleNames config)

/-- As long as nothing is reported, the checked modules are allowed. -/
def Sound (v : SecurityValidator) : Prop :=
  v.violations = [] → ∀ name ∈ v.checkedModules, Allowed stdlibModuleNames config name

/-- From `v` to `v'` something is reported unless `p`. -/
def Checks (p : Prop) (v v' : SecurityValidator) : Prop :=
  Sound stdlibModuleNames config v →
    Sound stdlibModuleNames config v' ∧ (v'.violations = [] ↔ v.violations = [] ∧ p)

variable {stdlibModuleNames config} {p q : Prop}

theorem Checks.refl (hp : p) : Checks stdlibModuleNames config p v v :=
  fun hs => ⟨hs, (and_iff_left hp).symm⟩

theorem Checks.trans (h : Checks stdlibModuleNames config p v v')
    (h' : Checks stdlibModuleNames config q v' v'') :
    Checks stdlibModuleNames config (p ∧ q) v v'' := by
  intro hs
  obtain ⟨hs', hiff⟩ := h hs
  obtain ⟨hs'', hiff'⟩ := h' hs'
  exact ⟨hs'', by rw [hiff', hiff, and_assoc]⟩

theorem Checks.congr (h : Checks stdlibModuleNames config p v v') (hpq : p ↔ q) :
    Checks stdlibModuleNames config q v v' := propext hpq ▸ h

theorem checks_addViolation (hp : ¬ p) (lineno : ℕ) (message : String) :
    Checks stdlibModuleNames config p v (v.addViolation lineno message) := by
  have hne : (v.addViolation lineno message).violations ≠ [] :=
    List.append_ne_nil_of_right_ne_nil _ (List.cons_ne_nil _ _)
  exact fun _ => ⟨fun hnil => absurd hnil hne, iff_of_false hne fun h => hp h.2⟩

theorem checks_ite [Decidable p] (lineno : ℕ) (message : String) :
    Checks stdlibModuleNames config (¬ p) v (if p then v.addViolation lineno message else v) := by
  split_ifs with h
  · exact checks_addViolation (not_not.2 h) lineno message
  · exact .refl h

/-! ## The kinds of nodes -/

theorem checks_validateImport (modulePath : String) (lineno : ℕ) :
    Checks stdlibModuleNames config (Permitted stdlibModuleNames config (.absolute modulePath)) v
      (v.validateImport stdlibModuleNames config modulePath lineno) := by
  unfold validateImport
  split_ifs with hrelative
  · exact checks_addViolation (fun h => absurd hrelative (by simp [h.1])) lineno _
  dsimp only
  split_ifs with hchecked
  · intro hs
    refine ⟨hs, (and_iff_left_of_imp fun hnil => ⟨by simpa using hrelative, ?_⟩).symm⟩
    exact hs hnil _ hchecked
  · have hallowed := validateModuleImport_fst stdlibModuleNames config modulePath
    split
    · rename_i h
      rw [h] at hallowed
      have hallowed := hallowed.1 rfl
      intro hs
      refine ⟨fun hnil name hname => ?_, (and_iff_left ⟨by simpa using hrelative, hallowed⟩).symm⟩
      rcases List.mem_append.1 hname with hname | hname
      · exact hs hnil name hname
      · exact List.mem_singleton.1 hname ▸ hallowed
    · rename_i message h
      rw [h] at hallowed
      have hnot : ¬ Permitted stdlibModuleNames config (.absolute modulePath) :=
        fun hp => absurd (hallowed.2 hp.2) (by simp)
      intro hs
      have hne : (addViolation { v with
          checkedModules := v.checkedModules ++ [moduleName modulePath] } lineno
          (message.getD "None")).violations ≠ [] :=
        List.append_ne_nil_of_right_ne_nil _ (List.cons_ne_nil _ _)
      exact ⟨fun hnil => absurd hnil hne, iff_of_false hne fun h => hnot h.2⟩

theorem checks_visitImport (lineno : ℕ) : ∀ (names : List Alias) (v : SecurityValidator),
    Checks stdlibModuleNames config
      (∀ name ∈ names, Permitted stdlibModuleNames config (.absolute name.name)) v
      (v.visitImport stdlibModuleNames config names lineno)
  | [], v => .refl fun _ h => absurd h List.not_mem_nil
  | name :: names, v =>
    ((checks_validateImport name.name lineno).trans (checks_visitImport lineno names _)).congr
      (by simp)

theorem checks_visitNode (node : Node) :
    Checks stdlibModuleNames config (Passes stdlibModuleNames config node) v
      (v.visitNode stdlibModuleNames config node) := by
  unfold visitNode
  split
  · exact checks_visitImport _ _ v
  · rename_i source _ level lineno
    unfold visitImportFrom
    split_ifs with hlevel
    · exact checks_addViolation (fun h => absurd h.1 (Nat.ne_of_gt hlevel)) _ _
    · have hzero : level = 0 := Nat.eq_zero_of_not_pos hlevel
      cases source with
      | none => exact .refl ⟨hzero, fun _ h => by cases h⟩
      | some source =>
        dsimp only
        split_ifs with hempty
        · exact .refl ⟨hzero, fun _ h hne => absurd (Option.some.inj h ▸ hempty) hne⟩
        · refine (checks_validateImport source lineno).congr ?_
          simp [Passes, hzero, hempty]
  · exact checks_ite _ _
  · rename_i attr lineno
    exact ((checks_ite _ _).trans (checks_ite _ _)).congr
      (and_congr_right fun _ => by simp)
  · rename_i func args keywords lineno
    unfold visitCall
    split_ifs with himport
    · split
      · rename_i modulePath rest
        refine (checks_validateImport modulePath lineno).congr ?_
        simp [Passes, himport]
      · rename_i hargs
        refine checks_addViolation (fun h => ?_) _ _
        obtain ⟨modulePath, rest, heq, -⟩ := h himport
        exact hargs modulePath rest heq
    · exact .refl fun h => absurd h himport
  · rename_i value slice lineno
    unfold visitSubscript
    split_ifs with hbuiltins
    · split
      · rename_i key
        refine (checks_ite (p := key ∈ blockedAttributes) _ _).congr ?_
        simp [Passes, hbuiltins]
      · rename_i hslice
        exact .refl fun _ key heq => absurd heq (hslice key)
    · exact .refl fun h => absurd h hbuiltins
  · rename_i h₁ h₂ h₃ h₄ h₅ h₆
    refine .refl ?_
    unfold Passes
    split
    · exact absurd rfl (h₁ _ _)
    · exact absurd rfl (h₂ _ _ _ _)
    · exact absurd rfl (h₃ _ _)
    · exact absurd rfl (h₄ _ _ _)
    · exact absurd rfl (h₅ _ _ _ _)
    · exact absurd rfl (h₆ _ _ _)
    · trivial

/-- The whole visit, by the nodes below. -/
theorem checks_visit (node : Node) : ∀ v : SecurityValidator,
    Checks stdlibModuleNames config (∀ n ∈ node.walk, Passes stdlibModuleNames config n) v
      (visit stdlibModuleNames config node v) := by
  induction node using Node.walk.induct with
  | case1 node ih =>
    have hchildren : ∀ (cs : List { c // c ∈ node.children }) (v : SecurityValidator),
        Checks stdlibModuleNames config
          (∀ c ∈ cs, ∀ n ∈ c.1.walk, Passes stdlibModuleNames config n) v
          (cs.foldl (fun v c => visit stdlibModuleNames config c.1 v) v) := by
      intro cs
      induction cs with
      | nil => exact fun v => .refl fun c hc => absurd hc List.not_mem_nil
      | cons c cs ihcs =>
        intro v
        exact ((ih c v).trans (ihcs _)).congr (by simp)
    intro v
    rw [visit]
    refine ((checks_visitNode node).trans (hchildren _ _)).congr ?_
    rw [Node.walk_eq, List.forall_mem_cons, List.forall_mem_flatMap]
    simp

end SecurityValidator

/-- The visitor reports nothing exactly where it has nothing against any node. -/
theorem violations_eq_nil_iff (tree : Module) : violations stdlibModuleNames config tree = [] ↔
    ∀ node ∈ (Node.module tree).walk, Passes stdlibModuleNames config node := by
  have hstart : SecurityValidator.Sound stdlibModuleNames config {} :=
    fun _ name hname => absurd hname List.not_mem_nil
  exact (SecurityValidator.checks_visit _ {} hstart).2.trans (and_iff_right rfl)

/-! ## Safety -/

theorem mem_walk_child {node top c : Node} (hnode : node ∈ top.walk) (hc : c ∈ node.children) :
    c ∈ top.walk := by
  induction top using Node.walk.induct with
  | case1 top ih =>
    rw [Node.walk_eq] at hnode ⊢
    rcases List.mem_cons.1 hnode with rfl | hnode
    · refine List.mem_cons_of_mem _ (List.mem_flatMap.2 ⟨c, hc, ?_⟩)
      rw [Node.walk_eq]
      exact List.mem_cons_self
    · obtain ⟨child, hchild, hnode⟩ := List.mem_flatMap.1 hnode
      exact List.mem_cons_of_mem _ (List.mem_flatMap.2 ⟨child, hchild, ih ⟨child, hchild⟩ hnode⟩)

theorem readNames_of_passes {node : Node} (hpass : Passes stdlibModuleNames config node) :
    ∀ id ∈ readNames node, id ∉ blockedNames := by
  unfold readNames
  split
  · intro id hid
    exact List.mem_singleton.1 hid ▸ hpass
  · exact fun _ h => absurd h List.not_mem_nil

theorem readAttributes_of_passes {node : Node} (hpass : Passes stdlibModuleNames config node)
    (hother : ∀ attr ∈ otherAttributes node, attr ∉ blockedAttributes) :
    ∀ attr ∈ readAttributes node, attr ∉ blockedAttributes := by
  unfold readAttributes
  split
  · intro attr hattr
    exact List.mem_singleton.1 hattr ▸ hpass.1
  · exact hother

/-- A call of `__import__` of something else than the builtins has the attribute below it. -/
theorem imports_of_passes {node : Node} (hpass : Passes stdlibModuleNames config node)
    (hchildren : ∀ c ∈ node.children, Passes stdlibModuleNames config c) :
    ∀ imported ∈ imports node, Permitted stdlibModuleNames config imported := by
  unfold imports
  split
  · intro imported h
    obtain ⟨name, hname, rfl⟩ := List.mem_map.1 h
    exact hpass name hname
  · rename_i source names level lineno
    obtain ⟨rfl, hsource⟩ := hpass
    intro imported h
    rw [if_neg (Nat.lt_irrefl 0)] at h
    obtain ⟨modulePath, hmem, rfl⟩ := List.mem_map.1 h
    obtain ⟨hmem, hne⟩ := List.mem_filter.1 hmem
    exact hsource modulePath (Option.mem_toList.1 hmem) (of_decide_eq_true hne)
  · rename_i func args keywords lineno
    split_ifs with himport
    · have hcall : SecurityValidator.isImportCall func = true := by
        unfold isImportFunction at himport
        split at himport
        · exact himport
        · rename_i value attr _
          have hfunc := hchildren _ List.mem_cons_self
          have hblocked : attr ∈ blockedAttributes := by
            rw [of_decide_eq_true himport]
            decide
          exact absurd hblocked hfunc.1
        · cases himport
      obtain ⟨modulePath, rest, rfl, hpermitted⟩ := hpass hcall
      intro imported h
      exact List.mem_singleton.1 h ▸ hpermitted
    · exact fun _ h => absurd h List.not_mem_nil
  · exact fun _ h => absurd h List.not_mem_nil

/-- What is reported nowhere is safe, but for attributes that are read by other names. -/
theorem safe_iff {tree : Module} (hnil : violations stdlibModuleNames config tree = []) :
    Safe stdlibModuleNames config tree ↔
      ∀ node ∈ (Node.module tree).walk, ∀ attr ∈ otherAttributes node,
        attr ∉ blockedAttributes := by
  have hpass := (violations_eq_nil_iff tree).1 hnil
  constructor
  · intro hsafe node hnode attr hattr
    refine (hsafe node hnode).2.1 attr ?_
    unfold readAttributes
    split
    · cases hattr
    · exact hattr
  · intro hother node hnode
    exact ⟨readNames_of_passes (hpass node hnode),
      readAttributes_of_passes (hpass node hnode) (hother node hnode),
      imports_of_passes (hpass node hnode) fun c hc => hpass c (mem_walk_child hnode hc)⟩

end Visitor

/-- A class pattern that reads the class of any object. -/
def classOfObject : Module where
  body := [.Match (.Name "x" 1)
    [.mk (.MatchClass (.Name "object" 2) [] ["__class__"] [.MatchAs none (some "c")]) none [.Pass]]]

end TaskAnalyzer

end N8n

/-!
# The cache changes no outcome

What an analysis finds depends on the allowlists only up to their order, so an entry of the cache
is what any analyzer with the same key would find.
-/

namespace N8n.TaskAnalyzer

open PythonAst

/-! ## Allowlists in any order -/

section

variable {stdlibModuleNames : List String} {config config' : SecurityConfig}

theorem perm_of_sorted_eq {allow allow' : List String}
    (h : allow.insertionSort (· ≤ ·) = allow'.insertionSort (· ≤ ·)) : allow.Perm allow' :=
  (List.perm_insertionSort _ allow).symm.trans (h ▸ List.perm_insertionSort _ allow')

theorem allowedText_congr {allow allow' : List String}
    (h : allow.insertionSort (· ≤ ·) = allow'.insertionSort (· ≤ ·)) :
    allowedText allow = allowedText allow' := by
  have hnil : allow = [] ↔ allow' = [] := by
    have hlength := (perm_of_sorted_eq h).length_eq
    rw [← List.length_eq_zero_iff, ← List.length_eq_zero_iff, hlength]
  unfold allowedText
  simp only [hnil, h]

theorem validateModuleImport_congr
    (hstdlib : config.stdlibAllow.insertionSort (· ≤ ·) =
      config'.stdlibAllow.insertionSort (· ≤ ·))
    (hexternal : config.externalAllow.insertionSort (· ≤ ·) =
      config'.externalAllow.insertionSort (· ≤ ·)) (modulePath : String) :
    validateModuleImport stdlibModuleNames config modulePath =
      validateModuleImport stdlibModuleNames config' modulePath := by
  unfold validateModuleImport
  simp only [(perm_of_sorted_eq hstdlib).mem_iff, (perm_of_sorted_eq hexternal).mem_iff,
    allowedText_congr hstdlib, allowedText_congr hexternal]

namespace SecurityValidator

/-- The module imports are validated alike. -/
theorem validateImport_congr (h : ∀ modulePath,
      validateModuleImport stdlibModuleNames config modulePath =
        validateModuleImport stdlibModuleNames config' modulePath)
    (v : SecurityValidator) (modulePath : String) (lineno : ℕ) :
    v.validateImport stdlibModuleNames config modulePath lineno =
      v.validateImport stdlibModuleNames config' modulePath lineno := by
  unfold validateImport
  simp only [h]

theorem visitNode_congr (h : ∀ modulePath,
      validateModuleImport stdlibModuleNames config modulePath =
        validateModuleImport stdlibModuleNames config' modulePath)
    (v : SecurityValidator) (node : Node) :
    v.visitNode stdlibModuleNames config node = v.visitNode stdlibModuleNames config' node := by
  unfold visitNode
  simp only [visitImport, visitImportFrom, visitCall, validateImport_congr h]

theorem visit_congr (h : ∀ modulePath,
      validateModuleImport stdlibModuleNames config modulePath =
        validateModuleImport stdlibModuleNames config' modulePath) (node : Node) :
    ∀ v : SecurityValidator,
      visit stdlibModuleNames config node v = visit stdlibModuleNames config' node v := by
  induction node using Node.walk.induct with
  | case1 node ih =>
    have hchildren : ∀ (cs : List { c // c ∈ node.children }) (v : SecurityValidator),
        cs.foldl (fun v c => visit stdlibModuleNames config c.1 v) v =
          cs.foldl (fun v c => visit stdlibModuleNames config' c.1 v) v := by
      intro cs
      induction cs with
      | nil => exact fun v => rfl
      | cons c cs ihcs =>
        intro v
        rw [List.foldl_cons, List.foldl_cons, ih c v, ihcs]
    intro v
    rw [visit, visit, visitNode_congr h, hchildren]

end SecurityValidator

/-- Allowlists that sort alike find the same violations. -/
theorem violations_congr
    (h : (Analyzer.new config).allowlists = (Analyzer.new config').allowlists) (tree : Module) :
    violations stdlibModuleNames config tree = violations stdlibModuleNames config' tree := by
  obtain ⟨hstdlib, hexternal⟩ := Prod.mk.inj h
  unfold violations
  rw [SecurityValidator.visit_congr (validateModuleImport_congr hstdlib hexternal)]

end

/-! ## Calls -/

variable {Code Digest Failure : Type} [DecidableEq Digest] {py : Python Code Digest Failure}

/-- An entry has what any analyzer with its key finds in the code of its digest. -/
def IsFound (py : Python Code Digest Failure) (key : CacheKey Digest) (found : List String) :
    Prop :=
  ∀ code (securityConfig : SecurityConfig), py.sha256 code = .ok key.1 →
    (Analyzer.new securityConfig).allowlists = key.2 →
      ∃ tree, py.parse code = .ok tree ∧
        found = violations py.stdlibModuleNames securityConfig tree

/-- The entries are right, and there are not too many. -/
structure Valid (py : Python Code Digest Failure) (cache : ValidationCache Digest) : Prop where
  agrees : BoundedCache.Agrees (IsFound py) cache
  size : cache.size ≤ maxValidationCacheSize

theorem valid_empty (py : Python Code Digest Failure) : Valid py Dict.empty :=
  ⟨BoundedCache.agrees_empty, Nat.zero_le _⟩

/-- What an analysis comes to without the cache. -/
def analyze (py : Python Code Digest Failure) (securityConfig : SecurityConfig) (code : Code) :
    ValidationOutcome Failure :=
  ((Analyzer.new securityConfig).validate py code Dict.empty).2

/-- A call keeps the cache valid, and its outcome is that of the analysis. -/
theorem Valid.validate
    (hsha256 : ∀ code code' digest, py.sha256 code = .ok digest → py.sha256 code' = .ok digest →
      code = code') {cache : ValidationCache Digest} (h : Valid py cache)
    (securityConfig : SecurityConfig) (code : Code) :
    Valid py ((Analyzer.new securityConfig).validate py code cache).1 ∧
      ((Analyzer.new securityConfig).validate py code cache).2 =
        analyze py securityConfig code := by
  unfold analyze Analyzer.validate
  by_cases hall : (Analyzer.new securityConfig).allowAll = true
  · rw [if_pos hall, if_pos hall]
    exact ⟨h, rfl⟩
  rw [if_neg hall, if_neg hall]
  cases hkey : (Analyzer.new securityConfig).toCacheKey py code with
  | error error => exact ⟨h, rfl⟩
  | ok cacheKey =>
    obtain ⟨digest, hdigest, rfl⟩ : ∃ digest, py.sha256 code = .ok digest ∧
        cacheKey = (digest, (Analyzer.new securityConfig).allowlists) := by
      unfold Analyzer.toCacheKey at hkey
      cases hdigest : py.sha256 code with
      | error error =>
        rw [hdigest] at hkey
        cases hkey
      | ok digest =>
        rw [hdigest] at hkey
        exact ⟨digest, rfl, (Except.ok.inj hkey).symm⟩
    dsimp only
    rw [Dict.get?_empty]
    cases hcached : cache.get? (digest, (Analyzer.new securityConfig).allowlists) with
    | some found =>
      obtain ⟨tree, htree, rfl⟩ := h.agrees _ _ hcached code securityConfig hdigest rfl
      have hvalid : Valid py (BoundedCache.moveToEnd cache
          (digest, (Analyzer.new securityConfig).allowlists)) :=
        ⟨h.agrees.moveToEnd _, (BoundedCache.size_moveToEnd _ _).trans h.size⟩
      dsimp only
      rw [htree]
      by_cases hnone : violations py.stdlibModuleNames securityConfig tree = []
      · rw [if_pos (List.length_eq_zero_iff.2 hnone)]
        exact ⟨hvalid, by simp [hnone]⟩
      · rw [if_neg (mt List.length_eq_zero_iff.1 hnone)]
        exact ⟨hvalid, by simp [hnone]⟩
    | none =>
      cases htree : py.parse code with
      | error error => exact ⟨h, rfl⟩
      | ok tree =>
        have hfound : IsFound py (digest, (Analyzer.new securityConfig).allowlists)
            (violations py.stdlibModuleNames securityConfig tree) := by
          intro code' securityConfig' hdigest' hallowlists
          obtain rfl := hsha256 code code' digest hdigest hdigest'
          exact ⟨tree, htree, violations_congr hallowlists.symm tree⟩
        have hvalid : Valid py (BoundedCache.store maxValidationCacheSize cache
            (digest, (Analyzer.new securityConfig).allowlists)
            (violations py.stdlibModuleNames securityConfig tree)) :=
          ⟨h.agrees.store hfound _, BoundedCache.size_store (by decide) h.size _ _⟩
        by_cases hnone : violations py.stdlibModuleNames securityConfig tree = []
        · simp only [Analyzer.new_securityConfig, hnone, ne_eq, not_true, if_false] at hvalid ⊢
          exact ⟨hvalid, trivial⟩
        · simp only [Analyzer.new_securityConfig, hnone, ne_eq, not_false_eq_true, if_true]
          exact ⟨hvalid, trivial⟩

/-- Calls of any analyzers, one after the other. -/
theorem Valid.validateAll
    (hsha256 : ∀ code code' digest, py.sha256 code = .ok digest → py.sha256 code' = .ok digest →
      code = code') : ∀ {cache : ValidationCache Digest}, Valid py cache →
      ∀ calls : List (SecurityConfig × Code),
        Valid py (N8n.TaskAnalyzer.validateAll py cache calls).1 ∧
          (N8n.TaskAnalyzer.validateAll py cache calls).2 =
            calls.map fun call => analyze py call.1 call.2
  | cache, h, [] => ⟨h, rfl⟩
  | cache, h, (securityConfig, code) :: calls => by
    obtain ⟨hvalid, houtcome⟩ := h.validate hsha256 securityConfig code
    obtain ⟨hvalid', houtcomes⟩ := Valid.validateAll hsha256 hvalid calls
    refine ⟨hvalid', ?_⟩
    rw [List.map_cons, ← houtcomes, ← houtcome]
    rfl

/-- Each call has the outcome that it has without the cache, and the cache never grows too large. -/
theorem cache_transparent (py : Python Code Digest Failure)
    (hsha256 : ∀ code code' digest, py.sha256 code = .ok digest → py.sha256 code' = .ok digest →
      code = code') (calls : List (SecurityConfig × Code)) :
    (validateAll py Dict.empty calls).2 = calls.map (fun call =>
      ((Analyzer.new call.1).validate py call.2 Dict.empty).2) ∧
    ∀ before, before <+: calls →
      (validateAll py Dict.empty before).1.size ≤ maxValidationCacheSize :=
  ⟨((valid_empty py).validateAll hsha256 calls).2,
    fun before _ => ((valid_empty py).validateAll hsha256 before).1.size⟩

/-- Code is its own digest, and the empty text has an error. -/
def plainPython : Python String String Unit where
  stdlibModuleNames := ["os"]
  sha256 code := .ok code
  parse code := if code = "" then .error () else .ok ⟨[.Import [⟨code, none⟩] 1]⟩

theorem cache_transparent_twice :
    (validateAll plainPython Dict.empty [(⟨[], []⟩, "os"), (⟨[], []⟩, "os"), (⟨["os"], []⟩, "os"),
        (⟨[], []⟩, "")]).2 =
      [(⟨[], []⟩, "os"), (⟨[], []⟩, "os"), (⟨["os"], []⟩, "os"), (⟨[], []⟩, "")].map (fun call =>
        ((Analyzer.new call.1).validate plainPython call.2 Dict.empty).2) :=
  (cache_transparent plainPython (fun _ _ _ h h' =>
    (Except.ok.inj h).trans (Except.ok.inj h').symm) _).1

end N8n.TaskAnalyzer
