import Mathlib.Data.List.Basic
import N8n.WorkflowHelpers

/-!
# What the caches of credentials change, and in which order variables override

A hit is cached as it would be found again. A miss is cached as credentials, which later nodes are
given where they would have kept their own or found others.
-/

namespace N8n

namespace WorkflowHelpers

variable {table : CredentialsTable} {δ : Type}

/-! ## Lookups -/

theorem mem_of_unique {type : CredentialType} {name : String} {credentials : CredentialsEntity}
    (h : table.unique type name = some credentials) :
    credentials ∈ table.rows ∧ credentials.name = name ∧ credentials.type = type.name := by
  unfold CredentialsTable.unique at h
  split at h
  · next found hfound =>
    have hmem : found ∈ table.findBy type name := by
      rw [hfound]
      exact List.mem_cons_self
    obtain rfl : found = credentials := Option.some.inj h
    unfold CredentialsTable.findBy at hmem
    simpa using hmem
  · cases h

theorem findOneBy_eq_some_iff {type : CredentialType} {id : String}
    {credentials : CredentialsEntity} : table.findOneBy type id = some credentials ↔
      credentials ∈ table.rows ∧ credentials.id = id ∧ credentials.type = type.name := by
  unfold CredentialsTable.findOneBy
  constructor
  · intro h
    exact ⟨List.mem_of_find?_eq_some h, by simpa using List.find?_some h⟩
  · rintro ⟨hmem, hid, htype⟩
    have hsome : (table.rows.find? fun c => c.id = id ∧ c.type = type.name).isSome :=
      List.find?_isSome.2 ⟨credentials, hmem, by simp [hid, htype]⟩
    obtain ⟨found, hfound⟩ := Option.isSome_iff_exists.1 hsome
    obtain ⟨hfoundId, -⟩ : found.id = id ∧ found.type = type.name := by
      simpa using List.find?_some hfound
    have hfoundMem := List.mem_of_find?_eq_some hfound
    rw [hfound, List.inj_on_of_nodup_map table.nodup hfoundMem hmem (hfoundId.trans hid.symm)]

/-- Credentials that a name leads to are also found by their id. -/
theorem findOneBy_of_unique {type : CredentialType} {name : String}
    {credentials : CredentialsEntity} (h : table.unique type name = some credentials) :
    table.findOneBy type credentials.id = some credentials :=
  findOneBy_eq_some_iff.2 ⟨(mem_of_unique h).1, rfl, (mem_of_unique h).2.2⟩

theorem findOneBy_inherited {type : CredentialType} {id : String} (h : id ∈ inheritedKeys) :
    table.findOneBy type id = none := by
  rw [Option.eq_none_iff_forall_not_mem]
  intro credentials hfound
  obtain ⟨hmem, hid, -⟩ := findOneBy_eq_some_iff.1 hfound
  exact table.notInherited credentials hmem (hid ▸ h)

/-! ## The caches -/

/-- A lookup that the caches have kept. -/
abbrev Lookup := CredentialType × NodeCredentials

/-- Credentials of the old format have been looked up by this name. -/
def SeenName (seen : List Lookup) (type : CredentialType) (name : String) : Prop :=
  ∃ e ∈ seen, e.1 = type ∧ e.2.oldName = some name

instance (seen : List Lookup) (type : CredentialType) (name : String) :
    Decidable (SeenName seen type name) :=
  inferInstanceAs (Decidable (∃ e ∈ seen, _ ∧ _))

/-- The name of credentials that were found neither by this id nor by the name. -/
def missedName (table : CredentialsTable) (type : CredentialType) (id : String) (e : Lookup) :
    Option String :=
  match e with
  | (type', .details ⟨some id', name⟩) =>
    if type' = type ∧ id' = id ∧ table.unique type name = none then some name else none
  | _ => none

/-- What the caches hold after some lookups. -/
structure Caches (table : CredentialsTable) (seen : List Lookup) (caches : CredentialsCaches) :
    Prop where
  byName : ∀ type name, caches.byName.get? (type, name) =
    if name ∉ inheritedKeys ∧ SeenName seen type name then
      some (((table.unique type name).map CredentialsEntity.details).getD ⟨none, name⟩)
    else none
  known : ∀ type id credentials, table.findOneBy type id = some credentials →
    ∀ details, caches.byId.get? (type, id) = some details → details = credentials.details
  unknown : ∀ type id, table.findOneBy type id = none → caches.byId.get? (type, id) =
    if id ∈ inheritedKeys then none
    else (seen.findSome? (missedName table type id)).map (⟨some id, ·⟩)

theorem caches_empty (table : CredentialsTable) : Caches table [] .empty where
  byName _ _ := by simp [CredentialsCaches.empty, SeenName]
  known _ _ _ _ _ h := by cases h
  unknown _ _ _ := by simp [CredentialsCaches.empty]

/-- What a node is given after some lookups. -/
def given (table : CredentialsTable) (seen : List Lookup) (e : Lookup) : GivenCredentials :=
  match e with
  | (type, .details ⟨some id, name⟩) =>
    if id ∈ inheritedKeys then .inherited id
    else
      match table.findOneBy type id with
      | some credentials => .credentials (.details credentials.details)
      | none =>
        match seen.findSome? (missedName table type id), table.unique type name with
        | some name', _ => .credentials (.details ⟨some id, name'⟩)
        | none, some credentials => .credentials (.details credentials.details)
        | none, none => .credentials e.2
  | (type, .onlyName name) | (type, .details ⟨none, name⟩) =>
    if name ∈ inheritedKeys then .inherited name
    else
      match table.unique type name with
      | some credentials => .credentials (.details credentials.details)
      | none => .credentials (if SeenName seen type name then .details ⟨none, name⟩ else e.2)

theorem not_seenName_nil {type : CredentialType} {name : String} : ¬ SeenName [] type name :=
  fun ⟨_, hmem, _⟩ => List.not_mem_nil hmem

theorem seenName_append {seen : List Lookup} {e : Lookup} {type : CredentialType} {name : String} :
    SeenName (seen ++ [e]) type name ↔
      SeenName seen type name ∨ e.1 = type ∧ e.2.oldName = some name := by
  simp [SeenName, or_and_right, exists_or]

theorem missedName_of_oldName {type : CredentialType} {id name : String} {e : Lookup}
    (h : e.2.oldName = some name) : missedName table type id e = none := by
  obtain ⟨type', name' | ⟨_ | id', name'⟩⟩ := e
  · rfl
  · rfl
  · cases h

theorem given_of_oldName {seen : List Lookup} {type : CredentialType} {c : NodeCredentials}
    {name : String} (hname : c.oldName = some name) : given table seen (type, c) =
      if name ∈ inheritedKeys then .inherited name
      else
        match table.unique type name with
        | some credentials => .credentials (.details credentials.details)
        | none => .credentials (if SeenName seen type name then .details ⟨none, name⟩ else c) := by
  obtain name' | ⟨_ | id, name'⟩ := c
  · obtain rfl : name' = name := Option.some.inj hname
    rfl
  · obtain rfl : name' = name := Option.some.inj hname
    rfl
  · cases hname

/-- A lookup by name leaves the cache of ids as it is. -/
theorem Caches.append_byName {seen : List Lookup} {caches : CredentialsCaches}
    (h : Caches table seen caches) {e : Lookup} {name : String} (hname : e.2.oldName = some name)
    {byName : Dict (CredentialType × String) INodeCredentialsDetails}
    (hbyName : ∀ type name, byName.get? (type, name) =
      if name ∉ inheritedKeys ∧ SeenName (seen ++ [e]) type name then
        some (((table.unique type name).map CredentialsEntity.details).getD ⟨none, name⟩)
      else none) :
    Caches table (seen ++ [e]) { caches with byName := byName } where
  byName := hbyName
  known := h.known
  unknown type id hunknown := by
    rw [List.findSome?_append, List.findSome?_singleton, missedName_of_oldName hname,
      Option.or_none]
    exact h.unknown type id hunknown

/-- One lookup by name. -/
theorem replaceByName_spec {seen : List Lookup} {caches : CredentialsCaches}
    (h : Caches table seen caches) {type : CredentialType} {c : NodeCredentials} {name : String}
    (hname : c.oldName = some name) :
    (replaceByName table caches type c name).1 = given table seen (type, c) ∧
      Caches table (seen ++ [(type, c)]) (replaceByName table caches type c name).2 := by
  have hget := h.byName type name
  -- Nothing is new in the cache if the name is inherited or has been looked up before.
  have hold (hseen : name ∈ inheritedKeys ∨ SeenName seen type name) :
      Caches table (seen ++ [(type, c)]) caches := by
    refine h.append_byName hname fun type' name' => ?_
    rw [h.byName]
    refine if_congr (and_congr_right fun hinherited => ?_) rfl rfl
    rw [seenName_append]
    refine (or_iff_left_of_imp ?_).symm
    rintro ⟨rfl, hname'⟩
    obtain rfl : name = name' := Option.some.inj (hname.symm.trans hname')
    exact hseen.resolve_left hinherited
  have hnew (hinherited : name ∉ inheritedKeys) (hseen : ¬ SeenName seen type name) :
      Caches table (seen ++ [(type, c)]) { caches with
        byName := caches.byName.set (type, name)
          (((table.unique type name).map CredentialsEntity.details).getD ⟨none, name⟩) } := by
    refine h.append_byName hname fun type' name' => ?_
    rw [Dict.get?_set, h.byName]
    by_cases hkey : (type', name') = (type, name)
    · obtain ⟨rfl, rfl⟩ := Prod.mk.inj hkey
      rw [if_pos rfl, if_pos ⟨hinherited, seenName_append.2 (.inr ⟨rfl, hname⟩)⟩]
    · rw [if_neg hkey]
      refine if_congr (and_congr_right fun _ => ?_) rfl rfl
      rw [seenName_append]
      refine (or_iff_left ?_).symm
      rintro ⟨rfl, hname'⟩
      exact hkey (by rw [Option.some.inj (hname.symm.trans hname')])
  rw [given_of_oldName hname]
  unfold replaceByName cached
  by_cases hinherited : name ∈ inheritedKeys
  · rw [hget, if_neg (fun h => h.1 hinherited), if_pos hinherited, if_pos hinherited]
    exact ⟨rfl, hold (.inl hinherited)⟩
  · rw [if_neg hinherited, if_neg hinherited, hget]
    by_cases hseen : SeenName seen type name
    · rw [if_pos ⟨hinherited, hseen⟩, if_pos hseen]
      refine ⟨?_, hold (.inr hseen)⟩
      cases table.unique type name <;> rfl
    · rw [if_neg (fun h => hseen h.2), if_neg hseen]
      have hnew := hnew hinherited hseen
      cases hunique : table.unique type name with
      | none => exact ⟨rfl, by rwa [hunique] at hnew⟩
      | some credentials => exact ⟨rfl, by rwa [hunique] at hnew⟩

theorem missedName_details {type type' : CredentialType} {id id' name : String} :
    missedName table type' id' (type, .details ⟨some id, name⟩) =
      if type = type' ∧ id = id' ∧ table.unique type' name = none then some name else none := rfl

theorem given_details (seen : List Lookup) (type : CredentialType) (id name : String) :
    given table seen (type, .details ⟨some id, name⟩) =
      if id ∈ inheritedKeys then .inherited id
      else
        match table.findOneBy type id with
        | some credentials => .credentials (.details credentials.details)
        | none =>
          match seen.findSome? (missedName table type id), table.unique type name with
          | some name', _ => .credentials (.details ⟨some id, name'⟩)
          | none, some credentials => .credentials (.details credentials.details)
          | none, none => .credentials (.details ⟨some id, name⟩) := rfl

/-- A lookup by id leaves the cache of names as it is. -/
theorem Caches.append_byId {seen : List Lookup} {caches : CredentialsCaches}
    (h : Caches table seen caches) {type : CredentialType} {id name : String}
    {byId : Dict (CredentialType × String) INodeCredentialsDetails}
    (hknown : ∀ type id credentials, table.findOneBy type id = some credentials →
      ∀ details, byId.get? (type, id) = some details → details = credentials.details)
    (hunknown : ∀ type' id', table.findOneBy type' id' = none → byId.get? (type', id') =
      if id' ∈ inheritedKeys then none
      else ((seen.findSome? (missedName table type' id')).or
        (missedName table type' id' (type, .details ⟨some id, name⟩))).map (⟨some id', ·⟩)) :
    Caches table (seen ++ [(type, .details ⟨some id, name⟩)]) { caches with byId := byId } where
  byName type' name' := by
    dsimp only
    rw [h.byName]
    refine if_congr (and_congr_right fun _ => ?_) rfl rfl
    rw [seenName_append]
    exact (or_iff_left (fun h => by cases h.2)).symm
  known := hknown
  unknown type' id' hnone := by
    dsimp only
    rw [List.findSome?_append, List.findSome?_singleton]
    exact hunknown type' id' hnone

/-- One lookup by id. -/
theorem replaceById_spec {seen : List Lookup} {caches : CredentialsCaches}
    (h : Caches table seen caches) (type : CredentialType) (id name : String) :
    (replaceById table caches type id name).1 =
        given table seen (type, .details ⟨some id, name⟩) ∧
      Caches table (seen ++ [(type, .details ⟨some id, name⟩)])
        (replaceById table caches type id name).2 := by
  -- What is not missed is not new in the cache.
  have hold (hmissed : ∀ type' id', table.findOneBy type' id' = none → id' ∉ inheritedKeys →
      seen.findSome? (missedName table type' id') = none →
        missedName table type' id' (type, .details ⟨some id, name⟩) = none) :
      Caches table (seen ++ [(type, .details ⟨some id, name⟩)]) caches := by
    refine h.append_byId h.known fun type' id' hnone => ?_
    rw [h.unknown type' id' hnone]
    split_ifs with hinherited
    · rfl
    · cases hseen : seen.findSome? (missedName table type' id') with
      | none => rw [hmissed type' id' hnone hinherited hseen]; rfl
      | some name' => rfl
  rw [given_details]
  unfold replaceById cached
  by_cases hinherited : id ∈ inheritedKeys
  · have hget := h.unknown type id (findOneBy_inherited hinherited)
    rw [if_pos hinherited] at hget
    rw [hget, if_pos hinherited, if_pos hinherited]
    refine ⟨rfl, hold fun type' id' _ hnot _ => ?_⟩
    rw [missedName_details, if_neg]
    rintro ⟨-, rfl, -⟩
    exact hnot hinherited
  rw [if_neg hinherited, if_neg hinherited]
  cases hfound : table.findOneBy type id with
  | some credentials =>
    have hother (type' : CredentialType) (id' : String) (hnone : table.findOneBy type' id' = none) :
        (type', id') ≠ (type, id) := by
      rintro ⟨⟩
      rw [hfound] at hnone
      cases hnone
    have hmissed (type' : CredentialType) (id' : String)
        (hnone : table.findOneBy type' id' = none) :
        missedName table type' id' (type, .details ⟨some id, name⟩) = none := by
      rw [missedName_details, if_neg]
      rintro ⟨rfl, rfl, -⟩
      exact hother type id hnone rfl
    cases hget : caches.byId.get? (type, id) with
    | some details =>
      obtain rfl := h.known type id credentials hfound details hget
      exact ⟨rfl, hold fun type' id' hnone _ _ => hmissed type' id' hnone⟩
    | none =>
      refine ⟨rfl, h.append_byId (fun type' id' credentials' hfound' details hdetails => ?_)
        fun type' id' hnone => ?_⟩
      · rw [Dict.get?_set] at hdetails
        split_ifs at hdetails with hkey
        · obtain ⟨rfl, rfl⟩ := Prod.mk.inj hkey
          obtain rfl : credentials = credentials' := Option.some.inj (hfound.symm.trans hfound')
          exact (Option.some.inj hdetails).symm
        · exact h.known type' id' credentials' hfound' details hdetails
      · rw [Dict.get?_set, if_neg (hother type' id' hnone), hmissed type' id' hnone, Option.or_none]
        exact h.unknown type' id' hnone
  | none =>
    have hget := h.unknown type id hfound
    rw [if_neg hinherited] at hget
    rw [hget]
    cases hseen : seen.findSome? (missedName table type id) with
    | some name' =>
      refine ⟨rfl, hold fun type' id' _ _ hnone => ?_⟩
      rw [missedName_details, if_neg]
      rintro ⟨rfl, rfl, -⟩
      rw [hseen] at hnone
      cases hnone
    | none =>
      cases hunique : table.unique type name with
      | some credentials =>
        have hmissed (type' : CredentialType) (id' : String) :
            missedName table type' id' (type, .details ⟨some id, name⟩) = none := by
          rw [missedName_details, if_neg]
          rintro ⟨rfl, -, hnone⟩
          rw [hunique] at hnone
          cases hnone
        have hrow := findOneBy_of_unique hunique
        refine ⟨rfl, h.append_byId (fun type' id' credentials' hfound' details hdetails => ?_)
          fun type' id' hnone => ?_⟩
        · rw [Dict.get?_set] at hdetails
          split_ifs at hdetails with hkey
          · obtain ⟨rfl, rfl⟩ := Prod.mk.inj hkey
            obtain rfl : credentials = credentials' := Option.some.inj (hrow.symm.trans hfound')
            exact (Option.some.inj hdetails).symm
          · exact h.known type' id' credentials' hfound' details hdetails
        · have hother : (type', id') ≠ (type, credentials.id) := by
            rintro ⟨⟩
            rw [hrow] at hnone
            cases hnone
          rw [Dict.get?_set, if_neg hother, hmissed, Option.or_none]
          exact h.unknown type' id' hnone
      | none =>
        refine ⟨rfl, h.append_byId (fun type' id' credentials' hfound' details hdetails => ?_)
          fun type' id' hnone => ?_⟩
        · rw [Dict.get?_set, if_neg] at hdetails
          · exact h.known type' id' credentials' hfound' details hdetails
          · rintro ⟨⟩
            rw [hfound] at hfound'
            cases hfound'
        · rw [Dict.get?_set, missedName_details]
          by_cases hkey : (type', id') = (type, id)
          · obtain ⟨rfl, rfl⟩ := Prod.mk.inj hkey
            rw [if_pos rfl, if_neg hinherited, hseen, if_pos ⟨rfl, rfl, hunique⟩]
            rfl
          · have hnot : ¬ (type = type' ∧ id = id' ∧ table.unique type' name = none) := by
              rintro ⟨rfl, rfl, -⟩
              exact hkey rfl
            rw [if_neg hkey, if_neg hnot, Option.or_none]
            exact h.unknown type' id' hnone

theorem replaceCredentials_spec {seen : List Lookup} {caches : CredentialsCaches}
    (h : Caches table seen caches) (e : Lookup) :
    (replaceCredentials table caches e.1 e.2).1 = given table seen e ∧
      Caches table (seen ++ [e]) (replaceCredentials table caches e.1 e.2).2 := by
  obtain ⟨type, name | ⟨_ | id, name⟩⟩ := e
  · exact replaceByName_spec h rfl
  · exact replaceByName_spec h rfl
  · exact replaceById_spec h type id name

/-! ## The nodes -/

/-- What is given to each of some lookups in a row. -/
def givenAll (table : CredentialsTable) (seen : List Lookup) :
    List Lookup → List (CredentialType × GivenCredentials)
  | [] => []
  | e :: es => (e.1, given table seen e) :: givenAll table (seen ++ [e]) es

theorem replaceAll_spec : ∀ {seen : List Lookup} {caches : CredentialsCaches} (es : List Lookup),
    Caches table seen caches → (replaceAll table caches es).1 = givenAll table seen es ∧
      Caches table (seen ++ es) (replaceAll table caches es).2
  | seen, caches, [], h => by
    rw [List.append_nil]
    exact ⟨rfl, h⟩
  | seen, caches, e :: es, h => by
    obtain ⟨hgiven, hcaches⟩ := replaceCredentials_spec h e
    obtain ⟨hrest, hcaches'⟩ := replaceAll_spec es hcaches
    rw [List.append_assoc, List.singleton_append] at hcaches'
    refine ⟨?_, hcaches'⟩
    rw [givenAll, ← hgiven, ← hrest]
    rfl

/-- Each lookup is given what it is given alone. -/
def Agrees (table : CredentialsTable) (seen : List Lookup) : List Lookup → Prop
  | [] => True
  | e :: es => given table seen e = given table [] e ∧ Agrees table (seen ++ [e]) es

theorem agrees_append : ∀ {seen es es' : List Lookup}, Agrees table seen (es ++ es') ↔
    Agrees table seen es ∧ Agrees table (seen ++ es) es'
  | seen, [], es' => by
    rw [List.append_nil]
    exact (and_iff_right trivial).symm
  | seen, e :: es, es' => by
    rw [List.cons_append, Agrees, Agrees, agrees_append, List.append_assoc, List.singleton_append,
      and_assoc]

/-- Only lookups of the same type count. -/
theorem given_append_of_type {seen seen' : List Lookup} {e : Lookup}
    (h : ∀ e' ∈ seen', e'.1 ≠ e.1) : given table (seen ++ seen') e = given table seen e := by
  have hname (name : String) : SeenName (seen ++ seen') e.1 name ↔ SeenName seen e.1 name := by
    refine ⟨fun ⟨e', hmem, htype, hold⟩ => ?_, fun ⟨e', hmem, htype⟩ =>
      ⟨e', List.mem_append_left _ hmem, htype⟩⟩
    rcases List.mem_append.1 hmem with hmem | hmem
    · exact ⟨e', hmem, htype, hold⟩
    · exact absurd htype (h e' hmem)
  have hid (id : String) : (seen ++ seen').findSome? (missedName table e.1 id) =
      seen.findSome? (missedName table e.1 id) := by
    have hnone : seen'.findSome? (missedName table e.1 id) = none := by
      rw [List.findSome?_eq_none_iff]
      rintro ⟨type', name | ⟨_ | id', name⟩⟩ hmem
      · rfl
      · rfl
      · rw [missedName_details, if_neg]
        exact fun htype => h _ hmem htype.1
    rw [List.findSome?_append, hnone, Option.or_none]
  obtain ⟨type, name | ⟨_ | id, name⟩⟩ := e
  · simp only [given_of_oldName (show (NodeCredentials.onlyName name).oldName = some name from rfl),
      hname]
  · simp only [given_of_oldName (show (NodeCredentials.details ⟨none, name⟩).oldName = some name
      from rfl), hname]
  · rw [given_details, given_details, hid]

/-- In one node there is one lookup of each type. -/
theorem givenAll_eq_map : ∀ {seen es : List Lookup}, (es.map Prod.fst).Nodup →
    givenAll table seen es = es.map fun e => (e.1, given table seen e)
  | _, [], _ => rfl
  | seen, e :: es, hnodup => by
    obtain ⟨he, hnodup⟩ := List.nodup_cons.1 hnodup
    rw [givenAll, givenAll_eq_map hnodup, List.map_cons]
    refine congrArg _ (List.map_congr_left fun e' hmem => ?_)
    rw [given_append_of_type fun e'' hmem' heq => ?_]
    obtain rfl := List.mem_singleton.1 hmem'
    exact he (heq ▸ List.mem_map_of_mem hmem)

theorem agrees_iff_forall : ∀ {seen es : List Lookup}, (es.map Prod.fst).Nodup →
    (Agrees table seen es ↔ ∀ e ∈ es, given table seen e = given table [] e)
  | _, [], _ => iff_of_true trivial fun _ h => absurd h List.not_mem_nil
  | seen, e :: es, hnodup => by
    obtain ⟨he, hnodup⟩ := List.nodup_cons.1 hnodup
    rw [Agrees, agrees_iff_forall hnodup, List.forall_mem_cons]
    refine and_congr_right fun _ => forall₂_congr fun e' hmem => ?_
    rw [given_append_of_type fun e'' hmem' heq => ?_]
    obtain rfl := List.mem_singleton.1 hmem'
    exact he (heq ▸ List.mem_map_of_mem hmem)

/-- A node is given what it is given alone just if its lookups are. -/
theorem replaceInNode_spec {seen : List Lookup} {caches : CredentialsCaches}
    (h : Caches table seen caches) (node : CredentialsNode NodeCredentials δ) :
    ((replaceInNode table caches node).1 = (replaceInNode table .empty node).1 ↔
        Agrees table seen (lookedUp [node])) ∧
      Caches table (seen ++ lookedUp [node]) (replaceInNode table caches node).2 := by
  obtain ⟨_ | credentials, disabled, rest⟩ := node
  · refine ⟨iff_of_true rfl trivial, ?_⟩
    rw [show lookedUp [⟨none, disabled, rest⟩] = [] from rfl, List.append_nil]
    exact h
  · cases disabled with
    | true =>
      refine ⟨iff_of_true rfl trivial, ?_⟩
      rw [show lookedUp [⟨some credentials, true, rest⟩] = [] from rfl, List.append_nil]
      exact h
    | false =>
      have hlooked : lookedUp [⟨some credentials, false, rest⟩] = credentials.entries :=
        List.append_nil _
      obtain ⟨hgiven, hcaches⟩ := replaceAll_spec credentials.entries h
      have halone := (replaceAll_spec credentials.entries (caches_empty table)).1
      rw [givenAll_eq_map credentials.nodup] at hgiven halone
      rw [hlooked, agrees_iff_forall credentials.nodup]
      refine ⟨⟨fun heq => ?_, fun hall => ?_⟩, hcaches⟩
      · have hentries : (replaceAll table caches credentials.entries).1 =
            (replaceAll table .empty credentials.entries).1 :=
          congrArg (fun node => (node.credentials.map Dict.entries).getD []) heq
        rw [hgiven, halone, List.map_inj_left] at hentries
        exact fun e he => (Prod.mk.inj (hentries e he)).2
      · have hentries : (replaceAll table caches credentials.entries).1 =
            (replaceAll table .empty credentials.entries).1 := by
          rw [hgiven, halone]
          exact List.map_congr_left fun e he => by rw [hall e he]
        exact congrArg (fun given => (⟨some given, false, rest⟩ : CredentialsNode _ δ))
          (Dict.ext_entries hentries)

/-- The nodes are given what they are given alone just if all lookups are. -/
theorem replaceInNodes_eq_iff : ∀ {seen : List Lookup} {caches : CredentialsCaches}
    (nodes : List (CredentialsNode NodeCredentials δ)), Caches table seen caches →
      (replaceInNodes table caches nodes =
          nodes.flatMap (fun node => replaceInNodes table .empty [node]) ↔
        Agrees table seen (lookedUp nodes))
  | _, _, [], _ => iff_of_true rfl trivial
  | seen, caches, node :: nodes, h => by
    obtain ⟨hnode, hcaches⟩ := replaceInNode_spec h node
    have ih := replaceInNodes_eq_iff nodes hcaches
    have hlooked : lookedUp (node :: nodes) = lookedUp [node] ++ lookedUp nodes := by
      simp [lookedUp]
    rw [hlooked, agrees_append, ← hnode, ← ih]
    exact List.cons_eq_cons

/-! ## One lookup after others -/

theorem given_nil_details (type : CredentialType) (id name : String) :
    given table [] (type, .details ⟨some id, name⟩) =
      if id ∈ inheritedKeys then .inherited id
      else
        match table.findOneBy type id, table.unique type name with
        | some credentials, _ => .credentials (.details credentials.details)
        | none, some credentials => .credentials (.details credentials.details)
        | none, none => .credentials (.details ⟨some id, name⟩) := by
  rw [given_details]
  cases table.findOneBy type id <;> cases table.unique type name <;> rfl

/-- A name in an object is given as it is found, and a miss of it as it is. -/
theorem given_null (seen : List Lookup) (type : CredentialType) (name : String) :
    given table seen (type, .details ⟨none, name⟩) =
      given table [] (type, .details ⟨none, name⟩) := by
  rw [given_of_oldName rfl, given_of_oldName rfl, ite_self, ite_self]

theorem given_onlyName_iff {seen : List Lookup} {type : CredentialType} {name : String} :
    given table seen (type, .onlyName name) = given table [] (type, .onlyName name) ↔
      name ∈ inheritedKeys ∨ (table.unique type name).isSome ∨ ¬ SeenName seen type name := by
  rw [given_of_oldName rfl, given_of_oldName rfl]
  by_cases hinherited : name ∈ inheritedKeys
  · rw [if_pos hinherited, if_pos hinherited]
    exact iff_of_true rfl (.inl hinherited)
  rw [if_neg hinherited, if_neg hinherited, or_iff_right hinherited]
  cases table.unique type name with
  | some credentials => exact iff_of_true rfl (.inl rfl)
  | none =>
    dsimp only
    rw [if_neg not_seenName_nil]
    by_cases hseen : SeenName seen type name
    · rw [if_pos hseen]
      exact iff_of_false (fun h => by cases h) (by simp [hseen])
    · rw [if_neg hseen]
      exact iff_of_true rfl (.inr hseen)

theorem missedName_eq_some_iff {type : CredentialType} {id name : String} {e : Lookup} :
    missedName table type id e = some name ↔
      e = (type, .details ⟨some id, name⟩) ∧ table.unique type name = none := by
  obtain ⟨type', name' | ⟨_ | id', name'⟩⟩ := e
  · exact iff_of_false (fun h => by cases h) (fun h => by cases h.1)
  · exact iff_of_false (fun h => by cases h) (fun h => by cases h.1)
  · rw [missedName_details, Option.ite_none_right_eq_some]
    constructor
    · rintro ⟨⟨rfl, rfl, hnone⟩, hname⟩
      obtain rfl := Option.some.inj hname
      exact ⟨rfl, hnone⟩
    · rintro ⟨⟨⟩, hnone⟩
      exact ⟨⟨rfl, rfl, hnone⟩, rfl⟩

theorem given_details_iff {seen : List Lookup} {type : CredentialType} {id name : String} :
    given table seen (type, .details ⟨some id, name⟩) =
        given table [] (type, .details ⟨some id, name⟩) ↔
      id ∈ inheritedKeys ∨ (table.findOneBy type id).isSome ∨
        ∀ name', seen.findSome? (missedName table type id) = some name' →
          table.unique type name = none ∧ name' = name := by
  rw [given_details, given_nil_details]
  by_cases hinherited : id ∈ inheritedKeys
  · rw [if_pos hinherited, if_pos hinherited]
    exact iff_of_true rfl (.inl hinherited)
  rw [if_neg hinherited, if_neg hinherited, or_iff_right hinherited]
  cases hfound : table.findOneBy type id with
  | some credentials => exact iff_of_true rfl (.inl rfl)
  | none =>
    rw [or_iff_right (by simp)]
    cases seen.findSome? (missedName table type id) with
    | none =>
      refine iff_of_true ?_ fun name' h => by cases h
      cases table.unique type name <;> rfl
    | some name' =>
      cases hunique : table.unique type name with
      | some credentials =>
        -- The row has an id that is found.
        refine iff_of_false (fun h => ?_) fun h => by cases (h name' rfl).1
        obtain ⟨hid, -⟩ : id = credentials.id ∧ name' = credentials.name := by
          simpa [CredentialsEntity.details] using (show _ = _ from h)
        have hrow := findOneBy_of_unique hunique
        rw [← hid, hfound] at hrow
        cases hrow
      | none => simp

/-! ## Harmless lookups -/

theorem harmless_onlyName_iff {e : Lookup} {type : CredentialType} {name : String} :
    Harmless table e (type, .onlyName name) ↔ (e.1 = type → e.2.oldName = some name →
      name ∈ inheritedKeys ∨ (table.unique type name).isSome) := by
  constructor
  · exact fun h htype hname => h.byName htype name hname rfl
  · refine fun h => ⟨fun htype name' hname hlater => ?_, fun _ _ _ _ _ hlater => by cases hlater⟩
    obtain ⟨⟩ := hlater
    exact h htype hname

theorem harmless_null (e : Lookup) (type : CredentialType) (name : String) :
    Harmless table e (type, .details ⟨none, name⟩) :=
  ⟨fun _ _ _ hlater => (by cases hlater), fun _ _ _ _ _ hlater => by cases hlater⟩

theorem harmless_details_iff {e : Lookup} {type : CredentialType} {id name : String} :
    Harmless table e (type, .details ⟨some id, name⟩) ↔
      id ∈ inheritedKeys ∨ (table.findOneBy type id).isSome ∨
        ∀ name', missedName table type id e = some name' → name' = name := by
  constructor
  · intro h
    by_cases hknown : id ∈ inheritedKeys ∨ (table.findOneBy type id).isSome
    · exact or_assoc.1 (.inl hknown)
    · refine .inr (.inr fun name' hmissed => ?_)
      obtain ⟨rfl, hnone⟩ := missedName_eq_some_iff.1 hmissed
      rcases h.byId rfl id name' name rfl rfl with h | h | h | h
      · exact absurd (.inl h) hknown
      · exact absurd (.inr h) hknown
      · rw [show table.unique _ name' = none from hnone] at h
        cases h
      · exact h
  · refine fun h => ⟨fun _ _ _ hlater => (by cases hlater), ?_⟩
    rintro htype _ name' _ hearlier ⟨⟩
    rcases h with h | h | h
    · exact .inl h
    · exact .inr (.inl h)
    · refine .inr (.inr ?_)
      cases hunique : table.unique type name' with
      | some _ => exact .inl rfl
      | none => exact .inr (h name' (missedName_eq_some_iff.2 ⟨Prod.ext htype hearlier, hunique⟩))

/-- Lookups that do no harm to each other have missed an unknown id with one name. -/
theorem missedName_eq_of_pairwise {seen : List Lookup} (h : seen.Pairwise (Harmless table))
    {type : CredentialType} {id : String} (hinherited : id ∉ inheritedKeys)
    (hunknown : table.findOneBy type id = none) {e e' : Lookup} (he : e ∈ seen) (he' : e' ∈ seen)
    {name name' : String} (hname : missedName table type id e = some name)
    (hname' : missedName table type id e' = some name') : name = name' := by
  let Same (e e' : Lookup) : Prop := ∀ name name', missedName table type id e = some name →
    missedName table type id e' = some name' → name = name'
  have hpairwise : seen.Pairwise Same := by
    refine h.imp fun {e e'} hharmless name name' hname hname' => ?_
    obtain ⟨rfl, -⟩ := missedName_eq_some_iff.1 hname'
    rcases harmless_details_iff.1 hharmless with h | h | h
    · exact absurd h hinherited
    · rw [hunknown] at h
      cases h
    · exact h name hname
  have : Std.Symm Same := ⟨fun e e' h name name' hname hname' => (h name' name hname' hname).symm⟩
  have hself (e : Lookup) (_ : e ∈ seen) : Same e e := fun name name' hname hname' =>
    Option.some.inj (hname.symm.trans hname')
  exact hpairwise.forall_of_forall hself he he' name name' hname hname'

/-- What is given is given alone too, just if no lookup before does harm to it. -/
theorem given_eq_iff {seen : List Lookup} (h : seen.Pairwise (Harmless table)) (e : Lookup) :
    given table seen e = given table [] e ↔ ∀ e' ∈ seen, Harmless table e' e := by
  obtain ⟨type, name | ⟨_ | id, name⟩⟩ := e
  · rw [given_onlyName_iff]
    simp only [harmless_onlyName_iff, SeenName]
    constructor
    · rintro (h | h | h) e' hmem htype hname
      · exact .inl h
      · exact .inr h
      · exact absurd ⟨e', hmem, htype, hname⟩ h
    · intro h
      by_cases hseen : SeenName seen type name
      · obtain ⟨e', hmem, htype, hname⟩ := hseen
        exact (h e' hmem htype hname).imp_right .inl
      · exact .inr (.inr hseen)
  · exact iff_of_true (given_null seen type name) fun e' _ => harmless_null e' type name
  · rw [given_details_iff]
    simp only [harmless_details_iff]
    by_cases hknown : id ∈ inheritedKeys ∨ (table.findOneBy type id).isSome
    · exact iff_of_true (or_assoc.1 (.inl hknown)) fun _ _ => or_assoc.1 (.inl hknown)
    obtain ⟨hinherited, hunknown⟩ := not_or.1 hknown
    simp only [hinherited, hunknown, false_or, Bool.false_eq_true]
    constructor
    · intro hfirst e' hmem name' hname'
      have hsome : (seen.findSome? (missedName table type id)).isSome :=
        List.findSome?_isSome_iff.2 ⟨e', hmem, by rw [hname']; rfl⟩
      obtain ⟨first, hfound⟩ := Option.isSome_iff_exists.1 hsome
      obtain ⟨e'', hmem'', hfirstName⟩ := List.exists_of_findSome?_eq_some hfound
      rw [missedName_eq_of_pairwise h hinherited (by simpa using hunknown) hmem hmem'' hname'
        hfirstName]
      exact (hfirst first hfound).2
    · intro hall name' hfound
      obtain ⟨e', hmem, hname'⟩ := List.exists_of_findSome?_eq_some hfound
      obtain rfl := hall e' hmem name' hname'
      exact ⟨(missedName_eq_some_iff.1 hname').2, rfl⟩

theorem agrees_iff_pairwise : ∀ {seen es : List Lookup}, seen.Pairwise (Harmless table) →
    (Agrees table seen es ↔ (seen ++ es).Pairwise (Harmless table))
  | seen, [], h => iff_of_true trivial (by rwa [List.append_nil])
  | seen, e :: es, h => by
    have happend : (seen ++ [e]).Pairwise (Harmless table) ↔ ∀ e' ∈ seen, Harmless table e' e := by
      simp [List.pairwise_append, h]
    rw [Agrees, given_eq_iff h, ← happend, List.append_cons seen e es]
    constructor
    · exact fun ⟨hseen, hagrees⟩ => (agrees_iff_pairwise hseen).1 hagrees
    · intro hpairwise
      have hseen := (List.pairwise_append.1 hpairwise).1
      exact ⟨hseen, (agrees_iff_pairwise hseen).2 hpairwise⟩

/-- The caches change nothing just if no lookup does harm to a later one. -/
theorem sameAsAlone_iff (table : CredentialsTable)
    (nodes : Option (List (CredentialsNode NodeCredentials δ))) :
    SameAsAlone table nodes ↔ (lookedUp (nodes.getD [])).Pairwise (Harmless table) := by
  cases nodes with
  | none => exact iff_of_true rfl .nil
  | some nodes =>
    have hrun := replaceInNodes_eq_iff nodes (caches_empty table)
    rw [agrees_iff_pairwise .nil, List.nil_append] at hrun
    rw [Option.getD_some, ← hrun]
    exact Option.some_inj

/-- An enabled node with credentials of the old format. -/
def slackNode (rest : ℕ) : CredentialsNode NodeCredentials ℕ where
  credentials := some ⟨[(⟨"slackApi", by decide⟩, .onlyName "foo")], by decide⟩
  disabled := false
  rest := rest

/-- A name that is not found leaves the first node its text, and gives the second an object. -/
theorem not_sameAsAlone :
    ¬ SameAsAlone ⟨[], List.nodup_nil, by simp⟩ (some [slackNode 1, slackNode 2]) := by
  decide

/-! ## Variables -/

section Variables

variable {projectIdToUse : Option String} {stored : List Variable}

/-- The variable is set under the key. -/
def Variable.sets (projectIdToUse : Option String) (key : String) (v : Variable) : Bool :=
  (v.isGlobal || v.isOf projectIdToUse) && v.key = key && key ≠ protoKey

theorem get?_addVariable (acc : Dict String String) (v : Variable) (key : String) :
    (addVariable projectIdToUse acc v).get? key =
      if v.sets projectIdToUse key then some v.value else acc.get? key := by
  have hset : (setVariable acc v).get? key =
      if v.key = key ∧ key ≠ protoKey then some v.value else acc.get? key := by
    unfold setVariable
    by_cases hproto : v.key = protoKey
    · rw [if_pos hproto, if_neg fun h => h.2 (h.1 ▸ hproto)]
    · rw [if_neg hproto, Dict.get?_set]
      refine if_congr ⟨fun h => ⟨h.symm, h ▸ hproto⟩, fun h => h.1.symm⟩ rfl rfl
  unfold addVariable Variable.sets
  cases v.isGlobal <;> cases v.isOf projectIdToUse <;> simp [hset]

/-- The value that the variables have under a key at the end. -/
def lastValue (projectIdToUse : Option String) (stored : List Variable) (key : String) :
    Option String :=
  (stored.filter (Variable.sets projectIdToUse key)).getLast?.map Variable.value

theorem map_getVariables (cache : Option (List Variable)) (findAll : List Variable)
    (getWorkflowProjectCached : String → Option String) (workflowId projectId : Option String)
    (key : String) :
    (getVariables cache findAll getWorkflowProjectCached workflowId projectId).map (·.get? key) =
      (projectToUse getWorkflowProjectCached workflowId projectId).map
        (lastValue · (getAllCached cache findAll false) key) := by
  unfold getVariables
  rw [Option.map_map]
  refine congrArg (Option.map · _) (funext fun projectIdToUse => ?_)
  exact (Dict.get?_foldl_of_sets (get?_addVariable · · key) _ _).trans (Option.or_none)

theorem AtMostOne.eq_of_isOf (h : AtMostOne projectIdToUse stored) {v w : Variable}
    (hv : v ∈ stored) (hw : w ∈ stored) (hvOf : v.isOf projectIdToUse)
    (hwOf : w.isOf projectIdToUse) (hkey : v.key = w.key) : v = w :=
  List.inj_on_of_nodup_map h.ofProject (List.mem_filter.2 ⟨hv, hvOf⟩) (List.mem_filter.2 ⟨hw, hwOf⟩)
    hkey

theorem AtMostOne.eq_of_isGlobal (h : AtMostOne projectIdToUse stored) {v w : Variable}
    (hv : v ∈ stored) (hw : w ∈ stored) (hvGlobal : v.isGlobal) (hwGlobal : w.isGlobal)
    (hkey : v.key = w.key) : v = w :=
  List.inj_on_of_nodup_map h.globals (List.mem_filter.2 ⟨hv, hvGlobal⟩)
    (List.mem_filter.2 ⟨hw, hwGlobal⟩) hkey

theorem AtMostOne.perm (h : AtMostOne projectIdToUse stored) {stored' : List Variable}
    (hperm : stored'.Perm stored) : AtMostOne projectIdToUse stored' :=
  ⟨((hperm.filter _).map _).nodup_iff.2 h.globals, ((hperm.filter _).map _).nodup_iff.2 h.ofProject⟩

theorem Unambiguous.perm (h : Unambiguous projectIdToUse stored) {stored' : List Variable}
    (hperm : stored'.Perm stored) : Unambiguous projectIdToUse stored' :=
  ⟨fun v hv => h.notProto v (hperm.mem_iff.1 hv),
    fun g hg v hv => h.sameValue g (hperm.mem_iff.1 hg) v (hperm.mem_iff.1 hv)⟩

/-- The variable of the project has the value. -/
theorem AtMostOne.valueFor_of_isOf (h : AtMostOne projectIdToUse stored) {v : Variable}
    (hv : v ∈ stored) (hof : v.isOf projectIdToUse) :
    valueFor projectIdToUse stored v.key = some v.value := by
  unfold valueFor
  cases hfound : stored.find? fun w => w.isOf projectIdToUse && w.key = v.key with
  | none =>
    have hnot := List.find?_eq_none.1 hfound v hv
    simp [hof] at hnot
  | some w =>
    obtain ⟨hwOf, hkey⟩ : w.isOf projectIdToUse = true ∧ w.key = v.key := by
      simpa using List.find?_some hfound
    rw [h.eq_of_isOf (List.mem_of_find?_eq_some hfound) hv hwOf hof hkey]

/-- The global variable has the value if the project has none. -/
theorem AtMostOne.valueFor_of_isGlobal (h : AtMostOne projectIdToUse stored) {g : Variable}
    (hg : g ∈ stored) (hglobal : g.isGlobal)
    (hnone : ∀ v ∈ stored, v.isOf projectIdToUse → v.key ≠ g.key) :
    valueFor projectIdToUse stored g.key = some g.value := by
  unfold valueFor
  have hproject : (stored.find? fun w => w.isOf projectIdToUse && w.key = g.key) = none := by
    rw [List.find?_eq_none]
    intro v hv
    simpa using hnone v hv
  rw [hproject]
  dsimp only
  cases hfound : stored.find? fun w => w.isGlobal && w.key = g.key with
  | none =>
    have hnot := List.find?_eq_none.1 hfound g hg
    simp [hglobal] at hnot
  | some w =>
    obtain ⟨hwGlobal, hkey⟩ : w.isGlobal = true ∧ w.key = g.key := by
      simpa using List.find?_some hfound
    rw [h.eq_of_isGlobal (List.mem_of_find?_eq_some hfound) hg hwGlobal hglobal hkey]
    rfl

theorem valueFor_eq_none {key : String}
    (hnone : ∀ v ∈ stored, v.isGlobal ∨ v.isOf projectIdToUse → v.key ≠ key) :
    valueFor projectIdToUse stored key = none := by
  have hproject : (stored.find? fun w => w.isOf projectIdToUse && w.key = key) = none := by
    rw [List.find?_eq_none]
    intro v hv
    simpa using fun hof => hnone v hv (.inr hof)
  have hglobal : (stored.find? fun w => w.isGlobal && w.key = key) = none := by
    rw [List.find?_eq_none]
    intro v hv
    simpa using fun hglobal => hnone v hv (.inl hglobal)
  unfold valueFor
  rw [hproject, hglobal]
  rfl

/-- The three ways to a value. -/
theorem AtMostOne.valueFor_cases (h : AtMostOne projectIdToUse stored) (key : String) :
    (∃ v ∈ stored, v.isOf projectIdToUse ∧ v.key = key ∧
        valueFor projectIdToUse stored key = some v.value) ∨
      (∃ g ∈ stored, g.isGlobal ∧ g.key = key ∧
        (∀ v ∈ stored, v.isOf projectIdToUse → v.key ≠ key) ∧
          valueFor projectIdToUse stored key = some g.value) ∨
      (∀ v ∈ stored, v.isGlobal ∨ v.isOf projectIdToUse → v.key ≠ key) ∧
        valueFor projectIdToUse stored key = none := by
  by_cases hproject : ∃ v ∈ stored, v.isOf projectIdToUse ∧ v.key = key
  · obtain ⟨v, hv, hof, rfl⟩ := hproject
    exact .inl ⟨v, hv, hof, rfl, h.valueFor_of_isOf hv hof⟩
  have hnone (v : Variable) (hv : v ∈ stored) (hof : v.isOf projectIdToUse) : v.key ≠ key :=
    fun hkey => hproject ⟨v, hv, hof, hkey⟩
  by_cases hglobal : ∃ g ∈ stored, g.isGlobal ∧ g.key = key
  · obtain ⟨g, hg, hglobal, rfl⟩ := hglobal
    exact .inr (.inl ⟨g, hg, hglobal, rfl, hnone, h.valueFor_of_isGlobal hg hglobal hnone⟩)
  · have hnone (v : Variable) (hv : v ∈ stored) (hused : v.isGlobal ∨ v.isOf projectIdToUse) :
        v.key ≠ key := by
      rcases hused with hused | hused
      · exact fun hkey => hglobal ⟨v, hv, hused, hkey⟩
      · exact hnone v hv hused
    exact .inr (.inr ⟨hnone, valueFor_eq_none hnone⟩)

theorem AtMostOne.valueFor_perm (h : AtMostOne projectIdToUse stored) {stored' : List Variable}
    (hperm : stored'.Perm stored) (key : String) :
    valueFor projectIdToUse stored' key = valueFor projectIdToUse stored key := by
  have h' := h.perm hperm
  rcases h.valueFor_cases key with ⟨v, hv, hof, rfl, hvalue⟩ |
    ⟨g, hg, hglobal, rfl, hnone, hvalue⟩ | ⟨hnone, hvalue⟩
  · rw [hvalue, h'.valueFor_of_isOf (hperm.mem_iff.2 hv) hof]
  · rw [hvalue, h'.valueFor_of_isGlobal (hperm.mem_iff.2 hg) hglobal
      fun v hv => hnone v (hperm.mem_iff.1 hv)]
  · rw [hvalue, valueFor_eq_none fun v hv => hnone v (hperm.mem_iff.1 hv)]

theorem sets_iff {key : String} {v : Variable} : v.sets projectIdToUse key = true ↔
    (v.isGlobal ∨ v.isOf projectIdToUse) ∧ v.key = key ∧ key ≠ protoKey := by
  simp [Variable.sets, and_assoc]

theorem lastValue_eq_some {key value : String}
    (h : lastValue projectIdToUse stored key = some value) :
    ∃ v ∈ stored, v.sets projectIdToUse key ∧ v.value = value := by
  obtain ⟨v, hlast, rfl⟩ := Option.map_eq_some_iff.1 h
  obtain ⟨hv, hsets⟩ := List.mem_filter.1 (List.mem_of_getLast? hlast)
  exact ⟨v, hv, hsets, rfl⟩

theorem lastValue_eq_none_iff {key : String} : lastValue projectIdToUse stored key = none ↔
    ∀ v ∈ stored, ¬ v.sets projectIdToUse key := by
  unfold lastValue
  rw [Option.map_eq_none_iff, List.getLast?_eq_none_iff, List.filter_eq_nil_iff]

/-- What comes last under a key has the value of the key, in any order. -/
theorem lastValue_eq_valueFor (h : AtMostOne projectIdToUse stored)
    (hunambiguous : Unambiguous projectIdToUse stored) (key : String) :
    lastValue projectIdToUse stored key = valueFor projectIdToUse stored key := by
  cases hlast : lastValue projectIdToUse stored key with
  | none =>
    refine (valueFor_eq_none fun v hv hused hkey => ?_).symm
    exact lastValue_eq_none_iff.1 hlast v hv
      (sets_iff.2 ⟨hused, hkey, hkey ▸ hunambiguous.notProto v hv hused⟩)
  | some value =>
    obtain ⟨v, hv, hsets, rfl⟩ := lastValue_eq_some hlast
    obtain ⟨hused, rfl, -⟩ := sets_iff.1 hsets
    rcases h.valueFor_cases v.key with ⟨w, hw, hof, hkey, hvalue⟩ |
      ⟨g, hg, hglobal, hkey, hnone, hvalue⟩ | ⟨hnone, -⟩
    · rw [hvalue]
      rcases hused with hglobal | hvOf
      · rw [hunambiguous.sameValue v hv w hw hglobal hof hkey.symm]
      · rw [h.eq_of_isOf hv hw hvOf hof hkey.symm]
    · have hvGlobal := hused.resolve_right fun hof => hnone v hv hof rfl
      rw [hvalue, h.eq_of_isGlobal hv hg hvGlobal hglobal hkey.symm]
    · exact absurd rfl (hnone v hv hused)

/-- A variable that is stored last is the one that counts. -/
theorem lastValue_concat (stored : List Variable) {v : Variable}
    (hused : v.isGlobal ∨ v.isOf projectIdToUse) (hproto : v.key ≠ protoKey) :
    lastValue projectIdToUse (stored ++ [v]) v.key = some v.value := by
  have hsets := sets_iff.2 ⟨hused, rfl, hproto⟩
  unfold lastValue
  rw [List.filter_append, List.filter_cons_of_pos hsets, List.filter_nil, List.getLast?_concat]
  rfl

theorem lastValue_protoKey : lastValue projectIdToUse stored protoKey = none :=
  lastValue_eq_none_iff.2 fun _ _ hsets => (sets_iff.1 hsets).2.2 rfl

/-- If no order matters, and each key has its value, then the variables are not ambiguous. -/
theorem unambiguous_of_lastValue (h : AtMostOne projectIdToUse stored)
    (hvalues : ∀ key, lastValue projectIdToUse stored key = valueFor projectIdToUse stored key)
    (hanyOrder : ∀ stored', stored'.Perm stored → ∀ key,
      lastValue projectIdToUse stored' key = lastValue projectIdToUse stored key) :
    Unambiguous projectIdToUse stored := by
  have hproto (v : Variable) (hv : v ∈ stored) (hused : v.isGlobal ∨ v.isOf projectIdToUse) :
      v.key ≠ protoKey := by
    intro hkey
    have hvalue := hvalues v.key
    rw [hkey, lastValue_protoKey, ← hkey] at hvalue
    rcases h.valueFor_cases v.key with ⟨w, -, -, -, hw⟩ | ⟨g, -, -, -, -, hg⟩ | ⟨hnone, -⟩
    · rw [hw] at hvalue
      cases hvalue
    · rw [hg] at hvalue
      cases hvalue
    · exact hnone v hv hused rfl
  refine ⟨hproto, fun g hg v hv hglobal hof hkey => ?_⟩
  -- The global variable is stored last.
  have hperm : (stored.erase g ++ [g]).Perm stored :=
    (List.perm_append_singleton g _).trans (List.perm_cons_erase hg).symm
  have hvalue : some g.value = some v.value := by
    rw [← lastValue_concat (stored.erase g) (.inl hglobal) (hproto g hg (.inl hglobal)),
      hanyOrder _ hperm, hvalues, hkey, h.valueFor_of_isOf hv hof]
  exact Option.some.inj hvalue

end Variables

/-- The variables of the project override the global ones in any order just if their values are
the same where they have a key in common, and none has the key of the prototype. -/
theorem overridesGlobals_iff (cache : Option (List Variable)) (findAll : List Variable)
    (getWorkflowProjectCached : String → Option String) (workflowId projectId : Option String)
    (h : ∀ projectIdToUse, projectToUse getWorkflowProjectCached workflowId projectId =
      some projectIdToUse → AtMostOne projectIdToUse (getAllCached cache findAll false)) :
    OverridesGlobals cache findAll getWorkflowProjectCached workflowId projectId ↔
      ∀ projectIdToUse, projectToUse getWorkflowProjectCached workflowId projectId =
        some projectIdToUse → Unambiguous projectIdToUse (getAllCached cache findAll false) := by
  have hall : OverridesGlobals cache findAll getWorkflowProjectCached workflowId projectId ↔
      (∀ key, (projectToUse getWorkflowProjectCached workflowId projectId).map
          (lastValue · (getAllCached cache findAll false) key) =
        (projectToUse getWorkflowProjectCached workflowId projectId).map
          (valueFor · (getAllCached cache findAll false) key)) ∧
      ∀ cache' findAll', (getAllCached cache' findAll' false).Perm
          (getAllCached cache findAll false) → ∀ key,
        (projectToUse getWorkflowProjectCached workflowId projectId).map
            (lastValue · (getAllCached cache' findAll' false) key) =
          (projectToUse getWorkflowProjectCached workflowId projectId).map
            (lastValue · (getAllCached cache findAll false) key) := by
    simp only [← map_getVariables]
    exact ⟨fun h => ⟨h.values, h.anyOrder⟩, fun h => ⟨h.1, h.2⟩⟩
  rw [hall]
  cases hproject : projectToUse getWorkflowProjectCached workflowId projectId with
  | none => exact iff_of_true ⟨fun _ => rfl, fun _ _ _ _ => rfl⟩ fun _ h => by cases h
  | some projectIdToUse =>
    have h := h projectIdToUse hproject
    simp only [Option.map_some, Option.some.injEq, forall_eq']
    constructor
    · rintro ⟨hvalues, hanyOrder⟩
      exact unambiguous_of_lastValue h hvalues fun stored' => hanyOrder (some stored') []
    · intro hunambiguous
      refine ⟨lastValue_eq_valueFor h hunambiguous, fun cache' findAll' hperm key => ?_⟩
      rw [lastValue_eq_valueFor (h.perm hperm) (hunambiguous.perm hperm),
        lastValue_eq_valueFor h hunambiguous, h.valueFor_perm hperm]

/-- One global variable, and one of the project. -/
theorem overridesGlobals_iff_both : OverridesGlobals none [⟨"k", "g", none⟩, ⟨"k", "p", some "1"⟩]
      (fun _ => none) none (some "1") ↔
    ∀ projectIdToUse, projectToUse (fun _ => none) none (some "1") = some projectIdToUse →
      Unambiguous projectIdToUse [⟨"k", "g", none⟩, ⟨"k", "p", some "1"⟩] :=
  overridesGlobals_iff none [⟨"k", "g", none⟩, ⟨"k", "p", some "1"⟩] (fun _ => none) none (some "1")
    fun projectIdToUse hproject => by
      obtain rfl : some "1" = projectIdToUse := Option.some.inj hproject
      exact ⟨by decide, by decide⟩

/-- A global variable that is stored after the one of the project overrides it. -/
theorem not_overridesGlobals :
    AtMostOne (some "1") [⟨"k", "p", some "1"⟩, ⟨"k", "g", none⟩] ∧
      ¬ OverridesGlobals none [⟨"k", "p", some "1"⟩, ⟨"k", "g", none⟩] (fun _ => none) none
        (some "1") :=
  ⟨⟨by decide, by decide⟩, fun h => absurd (h.values "k") (by decide)⟩

end WorkflowHelpers

end N8n
