import Mathlib.Tactic
import N8n.FolderService

/-!
# Folders stay a forest

Each request moves folders to one new parent, or removes what is at or below a folder. So the
folders stay a forest exactly if the new parent is not below what is moved. `updateFolder` makes
sure of this; a folder that is deleted or transferred may take its contents below themselves.
-/

namespace N8n

open Relation

namespace FolderTables

variable {arrange : List FolderPathRow → List FolderPathRow} {t t' : FolderTables}

/-! ## Updates -/

theorem get?_updateFolders (t : FolderTables) (where_ : String → Folder → Bool)
    (change : Folder → Folder) (folderId : String) :
    (t.updateFolders where_ change).folders.get? folderId = (t.folders.get? folderId).map
      fun folder => if where_ folderId folder then change folder else folder :=
  Dict.get?_mapEntries _ _ _

theorem get?_updateWorkflows (t : FolderTables) (where_ : String → FiledWorkflow → Bool)
    (change : FiledWorkflow → FiledWorkflow) (workflowId : String) :
    (t.updateWorkflows where_ change).workflows.get? workflowId = (t.workflows.get? workflowId).map
      fun workflow => if where_ workflowId workflow then change workflow else workflow :=
  Dict.get?_mapEntries _ _ _

theorem parentOf_eq {folderId : String} {folder : Folder}
    (h : t.folders.get? folderId = some folder) :
    t.parentOf folderId = folder.parentFolderId := by
  rw [parentOf, h, Option.bind_some]

theorem exists_of_parentOf {folderId parentId : String} (h : t.parentOf folderId = some parentId) :
    ∃ folder, t.folders.get? folderId = some folder ∧ folder.parentFolderId = some parentId :=
  Option.bind_eq_some_iff.1 h

theorem findOneOrFailFolderInProject_isSome {folderId projectId : String} :
    (t.findOneOrFailFolderInProject folderId projectId).isSome ↔
      ∃ folder, t.folders.get? folderId = some folder ∧ folder.projectId = projectId := by
  simp [findOneOrFailFolderInProject, Option.any_eq_true]

/-- What is above a folder that is there is there. -/
theorem Sound.isSome_of_atOrBelow (h : t.Sound) {a b : String} (hab : t.AtOrBelow a b)
    (ha : (t.folders.get? a).isSome) : (t.folders.get? b).isSome := by
  induction hab with
  | refl => exact ha
  | tail _ hbc _ =>
    obtain ⟨folder, hfolder, hparent⟩ := exists_of_parentOf hbc
    obtain ⟨parent, hget, -⟩ := h.parents _ _ _ hfolder hparent
    rw [hget]
    rfl

/-- A folder is in the project of each folder above it. -/
theorem Sound.project_of_atOrBelow (h : t.Sound) {a b : String} (hab : t.AtOrBelow a b)
    {folder : Folder} (ha : t.folders.get? a = some folder) :
    ∃ above, t.folders.get? b = some above ∧ above.projectId = folder.projectId := by
  induction hab with
  | refl => exact ⟨folder, ha, rfl⟩
  | tail _ hbc ih =>
    obtain ⟨above, habove, hproject⟩ := ih
    obtain ⟨folder', hfolder', hparent⟩ := exists_of_parentOf hbc
    obtain rfl := Option.some.inj (habove.symm.trans hfolder')
    obtain ⟨parent, hget, hparent'⟩ := h.parents _ _ _ habove hparent
    exact ⟨parent, hget, hparent'.trans hproject⟩

/-! ## The recursive queries -/

theorem mem_keys_of_parentOf {a b : String} (h : t.parentOf a = some b) : a ∈ t.folders.keys := by
  obtain ⟨folder, hfolder, -⟩ := exists_of_parentOf h
  exact Dict.mem_keys.2 (by rw [hfolder]; rfl)

/-- The way up from a folder ends. -/
theorem Sound.climb (h : t.Sound) (folderId : String) :
    ∃ path, Forest.climb t.parentOf (t.folders.size + 1) folderId = some path ∧
      ∀ b, b ∈ path ↔ t.AtOrBelow folderId b := by
  have hfuel : t.folders.keys.length < t.folders.size + 1 := by simp [Dict.keys, Dict.size]
  obtain ⟨path, hpath⟩ := h.acyclic.exists_climb (fun _ _ => mem_keys_of_parentOf) hfuel folderId
  exact ⟨path, hpath, Forest.mem_climb hpath⟩

theorem isUnder_eq {folderId : String} : ∀ {fuel : ℕ} {a : String} {path : List String},
    Forest.climb t.parentOf fuel a = some path →
    t.isUnder folderId fuel a = decide (folderId ∈ path)
  | 0, _, _, h => by cases h
  | fuel + 1, a, path, h => by
    unfold Forest.climb at h
    unfold isUnder
    cases hparent : t.parentOf a with
    | none =>
      simp only [hparent, Option.some.injEq] at h
      simp [← h, eq_comm]
    | some b =>
      simp only [hparent] at h
      obtain ⟨above, habove, rfl⟩ := Option.map_eq_some_iff.1 h
      rw [Option.any_some, isUnder_eq habove]
      simp [eq_comm]

theorem Sound.isUnder_iff (h : t.Sound) (folderId id : String) :
    t.isUnder folderId (t.folders.size + 1) id = true ↔ t.AtOrBelow id folderId := by
  obtain ⟨path, hpath, hmem⟩ := h.climb id
  rw [isUnder_eq hpath, decide_eq_true_eq, hmem]

/-- The parents of the folders of a project. -/
def parentIn (t : FolderTables) (projectId folderId : String) : Option String :=
  ((t.folders.get? folderId).filter (·.projectId = projectId)).bind (·.parentFolderId)

theorem parentIn_eq_some {projectId a b : String} : t.parentIn projectId a = some b ↔
    ∃ folder, t.folders.get? a = some folder ∧ folder.projectId = projectId ∧
      folder.parentFolderId = some b := by
  simp [parentIn, Option.bind_eq_some_iff, Option.filter_eq_some_iff, and_assoc]

theorem parentOf_of_parentIn {projectId a b : String} (h : t.parentIn projectId a = some b) :
    t.parentOf a = some b := by
  obtain ⟨folder, hfolder, -, hparent⟩ := parentIn_eq_some.1 h
  rw [parentOf_eq hfolder, hparent]

theorem mem_childrenIn {projectId : String} (level : List String) (b : String) :
    b ∈ t.childrenIn projectId level ↔ ∃ a ∈ level, t.parentIn projectId b = some a := by
  simp only [childrenIn, List.mem_map, List.mem_filter, Prod.exists, exists_and_right,
    exists_eq_right, Bool.and_eq_true, decide_eq_true_eq, Option.any_eq_true, Dict.mem_entries,
    parentIn_eq_some]
  constructor
  · rintro ⟨folder, hfolder, hproject, a, hparent, ha⟩
    exact ⟨a, ha, folder, hfolder, hproject, hparent⟩
  · rintro ⟨a, ha, folder, hfolder, hproject, hparent⟩
    exact ⟨folder, hfolder, hproject, a, hparent, ha⟩

/-- All that is below a folder is in its project. -/
theorem Sound.below_iff (h : t.Sound) {folderId projectId : String}
    (hfolder : (t.findOneOrFailFolderInProject folderId projectId).isSome) (id : String) :
    TransGen (Forest.Up (t.parentIn projectId)) id folderId ↔ t.Below id folderId := by
  obtain ⟨folder, hget, hproject⟩ := findOneOrFailFolderInProject_isSome.1 hfolder
  refine ⟨TransGen.mono (fun _ _ => parentOf_of_parentIn) id folderId, fun hbelow => ?_⟩
  have hin : ∀ {a b}, t.parentOf a = some b → t.AtOrBelow b folderId →
      t.parentIn projectId a = some b := by
    intro a b hab hb
    obtain ⟨folder', hfolder', hparent⟩ := exists_of_parentOf hab
    obtain ⟨above, habove, hproject'⟩ := h.project_of_atOrBelow (.head hab hb) hfolder'
    obtain rfl := Option.some.inj (habove.symm.trans hget)
    exact parentIn_eq_some.2 ⟨folder', hfolder', hproject'.symm.trans hproject, hparent⟩
  induction hbelow using TransGen.head_induction_on with
  | single hab => exact .single (hin hab .refl)
  | head hab hb ih => exact .head (hin hab hb.to_reflTransGen) ih

/-- What is below a folder is found, in levels that end. -/
theorem Sound.getAllFolderIdsInHierarchy (h : t.Sound) {folderId projectId : String}
    (hfolder : (t.findOneOrFailFolderInProject folderId projectId).isSome) :
    ∃ ids, t.getAllFolderIdsInHierarchy folderId projectId = some ids ∧
      ∀ id, id ∈ ids ↔ t.Below id folderId := by
  have hwhole : ∀ a b, t.parentIn projectId a = some b → a ∈ t.folders.keys := fun _ _ hab =>
    mem_keys_of_parentOf (parentOf_of_parentIn hab)
  have hfuel : t.folders.keys.length < t.folders.size + 1 := by simp [Dict.keys, Dict.size]
  have hstart : t.childrenIn projectId [folderId] ⊆ t.folders.keys := fun a ha => by
    obtain ⟨b, -, hab⟩ := (mem_childrenIn _ a).1 ha
    exact hwhole a b hab
  obtain ⟨found, hfound⟩ := (h.acyclic.mono fun _ _ => parentOf_of_parentIn).exists_levels
    (mem_childrenIn (t := t)) hwhole hfuel hstart
  refine ⟨found.dedup, by rw [FolderTables.getAllFolderIdsInHierarchy, hfound]; rfl, fun id => ?_⟩
  rw [List.mem_dedup, Forest.mem_levels mem_childrenIn hfound, ← h.below_iff hfolder,
    TransGen.tail'_iff]
  constructor
  · rintro ⟨a, ha, hid⟩
    obtain ⟨b, hb, hab⟩ := (mem_childrenIn _ a).1 ha
    exact ⟨a, hid, List.mem_singleton.1 hb ▸ hab⟩
  · rintro ⟨a, hid, hab⟩
    exact ⟨a, (mem_childrenIn _ a).2 ⟨folderId, List.mem_singleton_self _, hab⟩, hid⟩

end FolderTables

/-! ## The tree of a path -/

open FolderTables (FolderPathRow)

theorem isDescendant_map {folderId : String} {α : Type} (f : α → SimpleFolderNode) :
    ∀ xs : List α, isDescendant folderId (xs.map f) = xs.any fun x => isDescendantOf folderId (f x)
  | [] => by simp [isDescendant]
  | x :: xs => by
    rw [List.map_cons, isDescendant, isDescendant_map f xs, List.any_cons]

/-- In a path, each folder has the next one as its only child, and the last one has none. -/
structure IsTreePath (children : Dict String FolderPathRow) (path : List FolderPathRow) : Prop where
  chain : path.IsChain fun folder child => children.get? folder.folder_id = some child
  last : ∀ folder ∈ path.getLast?, children.get? folder.folder_id = none

theorem IsTreePath.tail {children : Dict String FolderPathRow} {folder child : FolderPathRow}
    {path : List FolderPathRow} (h : IsTreePath children (folder :: child :: path)) :
    IsTreePath children (child :: path) :=
  ⟨(List.isChain_cons_cons.1 h.chain).2, fun last hlast => h.last last (by simpa using hlast)⟩

/-- The tree from the first folder of a path has the folders of the path. -/
theorem isDescendantOf_nodeBelow {children : Dict String FolderPathRow} {folderId : String} :
    ∀ {depth : ℕ} {folder : FolderPathRow} {path : List FolderPathRow}, path.length ≤ depth →
    IsTreePath children (folder :: path) →
    (isDescendantOf folderId (nodeBelow children depth folder) = true ↔
      ∃ row ∈ folder :: path, row.folder_id = folderId)
  | 0, folder, [], _, h => by simp [nodeBelow, isDescendantOf, isDescendant]
  | depth + 1, folder, [], _, h => by
    have hnone := h.last folder rfl
    simp [nodeBelow, isDescendantOf, isDescendant, hnone]
  | depth + 1, folder, child :: path, hdepth, h => by
    have hchild := (List.isChain_cons_cons.1 h.chain).1
    rw [nodeBelow, isDescendantOf, hchild, isDescendant_map, Option.toList_some]
    simp only [List.any_cons, List.any_nil, Bool.or_false, Bool.or_eq_true, decide_eq_true_eq]
    rw [isDescendantOf_nodeBelow (by simpa using hdepth) h.tail]
    simp only [List.mem_cons, exists_eq_or_imp]

section Rows

variable {flatPath : List FolderPathRow}

theorem getLast?_filter_eq {α : Type} {p : α → Bool} {xs : List α} {x : α} (hx : x ∈ xs)
    (hp : ∀ y ∈ xs, p y = true ↔ y = x) : (xs.filter p).getLast? = some x := by
  cases hlast : (xs.filter p).getLast? with
  | none =>
    rw [List.getLast?_eq_none_iff, List.filter_eq_nil_iff] at hlast
    exact absurd ((hp x hx).2 rfl) (hlast x hx)
  | some y =>
    obtain ⟨hy, hpy⟩ := List.mem_filter.1 (List.mem_of_getLast? hlast)
    rw [(hp y hy).1 hpy]

theorem onlyChild_get? (parent : String) : (onlyChild flatPath).get? parent =
    (flatPath.filter fun folder => parentRow flatPath folder = some parent).getLast? := by
  unfold onlyChild
  refine (@Dict.get?_foldl_of_sets _ _ _ _ _ (fun folder => parentRow flatPath folder = some parent)
    id parent (fun children folder => ?_) flatPath .empty).trans ?_
  · cases parentRow flatPath folder with
    | none => simp
    | some other =>
      simp only [Dict.get?_set, Option.some.injEq, decide_eq_true_eq]
      exact if_congr eq_comm rfl rfl
  · simp

end Rows

namespace FolderTables

variable {arrange : List FolderPathRow → List FolderPathRow} {t : FolderTables}

/-- The row of a folder. -/
def rowOf (t : FolderTables) (folderId : String) : FolderPathRow where
  folder_id := folderId
  folder_name := ((t.folders.get? folderId).map (·.name)).getD ""
  folder_parent_folder_id := t.parentOf folderId

theorem mem_folderPathRows (harrange : ∀ rows, (arrange rows).Perm rows) {folderId : String}
    {path : List String} (hpath : t.folderPath folderId = some path)
    (hall : ∀ a ∈ path, (t.folders.get? a).isSome) :
    ∃ rows, t.folderPathRows arrange folderId = some rows ∧
      ∀ row, row ∈ rows ↔ ∃ a ∈ path, t.rowOf a = row := by
  refine ⟨_, by rw [folderPathRows, hpath]; rfl, fun row => ?_⟩
  rw [(harrange _).mem_iff, List.mem_map]
  simp only [Prod.exists, List.mem_filter, decide_eq_true_eq, Dict.mem_entries]
  constructor
  · rintro ⟨a, folder, ⟨hfolder, ha⟩, rfl⟩
    exact ⟨a, ha, by simp [rowOf, hfolder, parentOf]⟩
  · rintro ⟨a, ha, rfl⟩
    obtain ⟨folder, hfolder⟩ := Option.isSome_iff_exists.1 (hall a ha)
    exact ⟨a, folder, ⟨hfolder, ha⟩, by simp [rowOf, hfolder, parentOf]⟩

/-- The tree of a folder has the folder and what is above it. -/
theorem Sound.isDescendant_getFolderTree (h : t.Sound)
    (harrange : ∀ rows, (arrange rows).Perm rows) {parentFolderId : String}
    (hparent : (t.folders.get? parentFolderId).isSome) (folderId : String) :
    ∃ tree, t.getFolderTree arrange parentFolderId = .ok tree ∧
      (isDescendant folderId tree = true ↔ t.AtOrBelow parentFolderId folderId) := by
  obtain ⟨path, hclimb, hmem⟩ := h.climb parentFolderId
  obtain ⟨hchain, hhead, root, hroot, hnone⟩ := Forest.isChain_climb hclimb
  have hall : ∀ a ∈ path, (t.folders.get? a).isSome := fun a ha =>
    h.isSome_of_atOrBelow ((hmem a).1 ha) hparent
  obtain ⟨rows, hrows, hrow⟩ := mem_folderPathRows harrange
    (by rw [folderPath, if_pos hparent, hclimb]) hall
  have hparentRow : ∀ a ∈ path, parentRow rows (t.rowOf a) = t.parentOf a := by
    intro a ha
    cases hup : t.parentOf a with
    | none => simp [parentRow, rowOf, hup]
    | some b =>
      have hb : b ∈ path := (hmem b).2 (((hmem a).1 ha).tail hup)
      have hids : b ∈ rows.map (·.folder_id) :=
        List.mem_map.2 ⟨t.rowOf b, (hrow _).2 ⟨b, hb, rfl⟩, rfl⟩
      simp only [parentRow, rowOf, hup]
      rw [Option.filter_some, if_pos (by simpa [h.named b (hall b hb)] using hids)]
  have hinj : ∀ {a b}, t.rowOf a = t.rowOf b → a = b := fun heq => congrArg (·.folder_id) heq
  have hchild : ∀ {a b}, a ∈ path → b ∈ path → Forest.Up t.parentOf a b →
      (onlyChild rows).get? b = some (t.rowOf a) := by
    intro a b ha hb hab
    rw [onlyChild_get?, getLast?_filter_eq ((hrow _).2 ⟨a, ha, rfl⟩)]
    intro row hmemrow
    obtain ⟨c, hc, rfl⟩ := (hrow row).1 hmemrow
    rw [decide_eq_true_eq, hparentRow c hc]
    constructor
    · intro hcb
      rw [h.acyclic.eq_of_up ((hmem c).1 hc) ((hmem a).1 ha) hcb hab]
    · intro heq
      rw [hinj heq, hab]
  have hfirst : (onlyChild rows).get? parentFolderId = none := by
    rw [onlyChild_get?, List.getLast?_eq_none_iff, List.filter_eq_nil_iff]
    intro row hmemrow hup
    obtain ⟨c, hc, rfl⟩ := (hrow row).1 hmemrow
    rw [decide_eq_true_eq, hparentRow c hc] at hup
    exact h.acyclic parentFolderId (.tail' ((hmem c).1 hc) hup)
  have hrootNode : rootNode rows = some (t.rowOf root) := by
    have hrootmem := List.mem_of_getLast? hroot
    refine getLast?_filter_eq ((hrow _).2 ⟨root, hrootmem, rfl⟩) fun row hmemrow => ?_
    obtain ⟨c, hc, rfl⟩ := (hrow row).1 hmemrow
    rw [hparentRow c hc, Option.isNone_iff_eq_none]
    constructor
    · intro hup
      rw [Forest.eq_of_root ((hmem c).1 hc) ((hmem root).1 hrootmem) hup hnone]
    · intro heq
      rw [hinj heq, hnone]
  obtain ⟨below, rfl⟩ := List.getLast?_eq_some_iff.1 hroot
  have hpath : IsTreePath (onlyChild rows) (t.rowOf root :: below.reverse.map t.rowOf) := by
    rw [← List.map_cons, ← List.reverse_concat]
    constructor
    · rw [List.isChain_map, List.isChain_reverse]
      exact hchain.imp_of_mem_imp fun a b ha hb hab => hchild ha hb hab
    · intro row hlast
      rw [List.getLast?_map, List.getLast?_reverse, hhead] at hlast
      obtain rfl := Option.some.inj hlast
      exact hfirst
  have hlength : (below.reverse.map t.rowOf).length ≤ rows.length := by
    have hnodup : (below.reverse.map t.rowOf).Nodup :=
      (List.nodup_reverse.2 (List.nodup_append.1 (h.acyclic.nodup hchain)).1).map fun _ _ => hinj
    refine (List.Nodup.subperm hnodup fun row hmemrow => ?_).length_le
    obtain ⟨a, ha, rfl⟩ := List.mem_map.1 hmemrow
    exact (hrow _).2 ⟨a, List.mem_append_left _ (List.mem_reverse.1 ha), rfl⟩
  refine ⟨_, by rw [getFolderTree, hrows], ?_⟩
  rw [transformFolderPathToTree, hrootNode, Option.toList_some, isDescendant_map, List.any_cons,
    List.any_nil, Bool.or_false, isDescendantOf_nodeBelow hlength hpath, ← hmem]
  rw [← List.map_cons, ← List.reverse_concat]
  constructor
  · rintro ⟨row, hmemrow, rfl⟩
    obtain ⟨a, ha, rfl⟩ := List.mem_map.1 hmemrow
    exact List.mem_reverse.1 ha
  · intro ha
    exact ⟨t.rowOf folderId, List.mem_map_of_mem (List.mem_reverse.2 ha), rfl⟩

/-! ## Moves -/

variable {t' : FolderTables}

/-- The parents after a move. -/
theorem parentOf_move {where_ : String → Folder → Bool} {target : Option String} :
    (t.updateFolders where_ ({ · with parentFolderId := target })).parentOf =
      Forest.move t.parentOf (fun id => (t.folders.get? id).any (where_ id) = true) target := by
  funext id
  rw [parentOf, get?_updateFolders, Forest.move, parentOf]
  cases t.folders.get? id with
  | none => simp
  | some folder =>
    simp only [Option.map_some, Option.bind_some, Option.any_some]
    split_ifs <;> rfl

theorem isSome_updateFolders (t : FolderTables) (where_ : String → Folder → Bool)
    (change : Folder → Folder) (id : String) :
    ((t.updateFolders where_ change).folders.get? id).isSome = (t.folders.get? id).isSome := by
  rw [get?_updateFolders, Option.isSome_map]

/-- Folders that are moved to a folder of their project, or to its root, leave a forest exactly if
that folder is not at or below one of them. -/
theorem Sound.move_iff (h : t.Sound) {where_ : String → Folder → Bool} {target : Option String}
    (htarget : ∀ p ∈ target, ∀ id folder, t.folders.get? id = some folder →
      where_ id folder = true →
      ∃ parent, t.folders.get? p = some parent ∧ parent.projectId = folder.projectId) :
    (t.updateFolders where_ ({ · with parentFolderId := target })).Sound ↔
      ∀ p ∈ target, ∀ id folder, t.folders.get? id = some folder → where_ id folder = true →
        ¬ t.AtOrBelow p id := by
  have hacyclic : Forest.Acyclic (Forest.move t.parentOf
      (fun id => (t.folders.get? id).any (where_ id) = true) target) ↔ _ :=
    Forest.acyclic_move_iff h.acyclic
  have hmoved : ∀ id, (t.folders.get? id).any (where_ id) = true ↔
      ∃ folder, t.folders.get? id = some folder ∧ where_ id folder = true := fun id => by
    simp [Option.any_eq_true]
  constructor
  · intro hsound p hp id folder hfolder hwhere
    refine hacyclic.1 ?_ p hp id ((hmoved id).2 ⟨folder, hfolder, hwhere⟩)
    exact parentOf_move ▸ hsound.acyclic
  · intro hno
    refine ⟨fun id hid => h.named id (by rwa [isSome_updateFolders] at hid), ?_, ?_, ?_⟩
    · intro id folder' parentId hfolder' hparent
      rw [get?_updateFolders] at hfolder'
      obtain ⟨folder, hfolder, rfl⟩ := Option.map_eq_some_iff.1 hfolder'
      have hkeeps : ∀ {p parent}, t.folders.get? p = some parent → ∃ parent',
          (t.updateFolders where_ ({ · with parentFolderId := target })).folders.get? p =
            some parent' ∧ parent'.projectId = parent.projectId := fun {p parent} hget => by
        refine ⟨_, by rw [get?_updateFolders, hget]; rfl, ?_⟩
        simp only []
        split_ifs <;> rfl
      split_ifs at hparent ⊢ with hwhere
      · obtain ⟨parent, hget, hproject⟩ := htarget parentId hparent id folder hfolder hwhere
        obtain ⟨parent', hget', hproject'⟩ := hkeeps hget
        exact ⟨parent', hget', hproject'.trans hproject⟩
      · obtain ⟨parent, hget, hproject⟩ := h.parents id folder parentId hfolder hparent
        obtain ⟨parent', hget', hproject'⟩ := hkeeps hget
        exact ⟨parent', hget', hproject'.trans hproject⟩
    · rw [parentOf_move]
      refine hacyclic.2 fun p hp id hid => ?_
      obtain ⟨folder, hfolder, hwhere⟩ := (hmoved id).1 hid
      exact hno p hp id folder hfolder hwhere
    · intro workflowId workflow parentId hworkflow hparent
      rw [isSome_updateFolders]
      exact h.homes workflowId workflow parentId hworkflow hparent

/-- Names do not matter. -/
theorem Sound.rename (h : t.Sound) {where_ : String → Folder → Bool} {name : String} :
    (t.updateFolders where_ ({ · with name })).Sound ∧
      (t.updateFolders where_ ({ · with name })).parentOf = t.parentOf := by
  have hsame : ∀ folder : Folder, ∀ id, (if where_ id folder then { folder with name } else
      folder).parentFolderId = folder.parentFolderId ∧ (if where_ id folder then
        { folder with name } else folder).projectId = folder.projectId := fun folder id => by
    split_ifs <;> exact ⟨rfl, rfl⟩
  have hparentOf : (t.updateFolders where_ ({ · with name })).parentOf = t.parentOf := by
    funext id
    rw [parentOf, get?_updateFolders, parentOf]
    cases t.folders.get? id with
    | none => rfl
    | some folder => exact (hsame folder id).1
  refine ⟨⟨fun id hid => h.named id (by rwa [isSome_updateFolders] at hid), ?_, ?_, ?_⟩, hparentOf⟩
  · intro id folder' parentId hfolder' hparent
    rw [get?_updateFolders] at hfolder'
    obtain ⟨folder, hfolder, rfl⟩ := Option.map_eq_some_iff.1 hfolder'
    rw [(hsame folder id).1] at hparent
    obtain ⟨parent, hget, hproject⟩ := h.parents id folder parentId hfolder hparent
    refine ⟨_, by rw [get?_updateFolders, hget]; rfl, ?_⟩
    rw [(hsame parent parentId).2, (hsame folder id).2, hproject]
  · rw [hparentOf]
    exact h.acyclic
  · intro workflowId workflow parentId hworkflow hparent
    rw [isSome_updateFolders]
    exact h.homes workflowId workflow parentId hworkflow hparent

/-! ## Requests that keep a forest -/

/-- A new folder in a folder of its project. -/
theorem Sound.insertFolder (h : t.Sound) {newId : String} (hnew : newId ≠ "") {folder : Folder}
    (hnone : t.folders.get? newId = none) (hparent : ∀ p ∈ folder.parentFolderId,
      ∃ parent, t.folders.get? p = some parent ∧ parent.projectId = folder.projectId) :
    (t.insertFolder newId folder).Sound := by
  have hparentOf : (t.insertFolder newId folder).parentOf =
      Forest.move t.parentOf (· = newId) folder.parentFolderId := by
    funext id
    rw [Forest.move, parentOf, FolderTables.insertFolder, Dict.get?_set, parentOf]
    split_ifs <;> rfl
  have hkeeps : ∀ {p parent}, t.folders.get? p = some parent →
      (t.insertFolder newId folder).folders.get? p = some parent := fun {p parent} hget => by
    have hne : p ≠ newId := by
      rintro rfl
      rw [hnone] at hget
      cases hget
    rw [FolderTables.insertFolder, Dict.get?_set_of_ne _ hne, hget]
  refine ⟨fun id hid => ?_, fun id folder' parentId hfolder hup => ?_, ?_,
    fun workflowId workflow parentId hworkflow hup => ?_⟩
  · rw [FolderTables.insertFolder, Dict.get?_set] at hid
    split_ifs at hid with hid'
    · exact hid' ▸ hnew
    · exact h.named id hid
  · rw [FolderTables.insertFolder, Dict.get?_set] at hfolder
    split_ifs at hfolder
    · obtain rfl := Option.some.inj hfolder
      obtain ⟨parent, hget, hproject⟩ := hparent parentId hup
      exact ⟨parent, hkeeps hget, hproject⟩
    · obtain ⟨parent, hget, hproject⟩ := h.parents id folder' parentId hfolder hup
      exact ⟨parent, hkeeps hget, hproject⟩
  · rw [hparentOf]
    refine (Forest.acyclic_move_iff h.acyclic).2 fun p hp a ha hpa => ?_
    obtain ⟨parent, hget, -⟩ := hparent p hp
    have hthere := h.isSome_of_atOrBelow hpa (by rw [hget]; rfl)
    rw [ha, hnone] at hthere
    cases hthere
  · obtain ⟨parent, hget⟩ := Option.isSome_iff_exists.1 (h.homes _ _ _ hworkflow hup)
    rw [hkeeps hget]
    rfl

theorem Sound.createFolder (h : t.Sound) {newId : String} (hnew : newId ≠ "") (name : String)
    (parentFolderId : Option String) (projectId : String) :
    (t.createFolder newId name parentFolderId projectId).tables.Sound := by
  unfold FolderTables.createFolder
  simp only []
  split
  · split_ifs with hfresh
    · exact h
    · exact h.insertFolder hnew (by simpa using hfresh) (by simp)
  · split_ifs with hparent hfresh
    · exact h
    · refine h.insertFolder hnew (by simpa using hfresh) fun p hp => ?_
      obtain rfl := Option.some.inj hp
      exact findOneOrFailFolderInProject_isSome.1 hparent
    · exact h

theorem toParent_eq_some {toFolderId p : String} (h : p ∈ toParent toFolderId) :
    p = toFolderId ∧ toFolderId ≠ projectRoot := by
  unfold toParent at h
  split_ifs at h with hroot
  · cases h
  · exact ⟨(Option.some.inj h).symm, hroot⟩

/-- A parent that passes is not below the folder. -/
theorem Sound.checkParent (h : t.Sound) (harrange : ∀ rows, (arrange rows).Perm rows)
    {folderId projectId parentFolderId : String}
    (hcheck : t.checkParent arrange folderId projectId parentFolderId = none) :
    parentFolderId = projectRoot ∨
      (t.findOneOrFailFolderInProject parentFolderId projectId).isSome ∧
        ¬ t.AtOrBelow parentFolderId folderId := by
  unfold FolderTables.checkParent at hcheck
  split_ifs at hcheck with _ hroot hnone
  · exact .inl hroot
  · have hsome : (t.findOneOrFailFolderInProject parentFolderId projectId).isSome := by
      simpa [Option.isSome_iff_ne_none] using hnone
    obtain ⟨parent, hget, -⟩ := findOneOrFailFolderInProject_isSome.1 hsome
    obtain ⟨tree, htree, hiff⟩ := h.isDescendant_getFolderTree harrange (by rw [hget]; rfl) folderId
    rw [htree] at hcheck
    simp only [] at hcheck
    split_ifs at hcheck with hdescendant
    exact .inr ⟨hsome, fun hbelow => hdescendant (hiff.2 hbelow)⟩

theorem Sound.updateFolder (h : t.Sound) (harrange : ∀ rows, (arrange rows).Perm rows)
    (folderId projectId : String) (name parentFolderId : Option String) :
    (t.updateFolder arrange folderId projectId name parentFolderId).tables.Sound := by
  have hreparent : ∀ {t : FolderTables}, t.Sound →
      (t.findOneOrFailFolderInProject folderId projectId).isSome → ∀ parentFolderId,
      t.checkParent arrange folderId projectId parentFolderId = none →
      (t.updateFolders (fun id _ => id = folderId)
        ({ · with parentFolderId := toParent parentFolderId })).Sound := by
    intro t h hfolder parentFolderId hcheck
    obtain ⟨folder, hget, hproject⟩ := findOneOrFailFolderInProject_isSome.1 hfolder
    have hchecked := h.checkParent harrange hcheck
    refine (h.move_iff fun p hp id folder' hfolder' hwhere => ?_).2
      fun p hp id folder' hfolder' hwhere => ?_
    · obtain ⟨rfl, hroot⟩ := toParent_eq_some hp
      obtain rfl := of_decide_eq_true hwhere
      obtain ⟨hparent, -⟩ := hchecked.resolve_left hroot
      obtain ⟨parent, hget', hproject'⟩ := findOneOrFailFolderInProject_isSome.1 hparent
      obtain rfl := Option.some.inj (hget.symm.trans hfolder')
      exact ⟨parent, hget', hproject'.trans hproject.symm⟩
    · obtain ⟨rfl, hroot⟩ := toParent_eq_some hp
      obtain rfl := of_decide_eq_true hwhere
      exact (hchecked.resolve_left hroot).2
  unfold FolderTables.updateFolder
  extract_lets renamed
  split_ifs with hnone
  · exact h
  have hfolder : (t.findOneOrFailFolderInProject folderId projectId).isSome := by
    simpa [Option.isSome_iff_ne_none] using hnone
  obtain ⟨hrenamed, hfound⟩ : renamed.Sound ∧
      (renamed.findOneOrFailFolderInProject folderId projectId).isSome := by
    simp only [renamed]
    cases name.filter (· ≠ "") with
    | none => exact ⟨h, hfolder⟩
    | some name =>
      obtain ⟨folder, hget, hproject⟩ := findOneOrFailFolderInProject_isSome.1 hfolder
      refine ⟨h.rename.1, findOneOrFailFolderInProject_isSome.2
        ⟨_, by rw [get?_updateFolders, hget]; rfl, ?_⟩⟩
      simpa using hproject
  split
  · exact hrenamed
  · split
    · exact hrenamed
    · rename_i hcheck
      exact hreparent hrenamed hfound _ hcheck

/-! ## Deletions -/

theorem get?_deleteFolderRow (t : FolderTables) (folderId id : String) :
    (t.deleteFolderRow folderId).folders.get? id =
      if t.isUnder folderId (t.folders.size + 1) id then none else t.folders.get? id := by
  rw [deleteFolderRow, Dict.get?_filterKeys]
  simp only [Bool.not_eq_true']
  cases t.isUnder folderId (t.folders.size + 1) id <;> rfl

theorem get?_deleteFolderRow_workflows (t : FolderTables) (folderId id : String) :
    (t.deleteFolderRow folderId).workflows.get? id = (t.workflows.get? id).filter fun workflow =>
      !workflow.parentFolderId.any (t.isUnder folderId (t.folders.size + 1)) :=
  Dict.get?_filter _ _ _

theorem parentOf_of_deleteFolderRow {folderId a b : String}
    (h : (t.deleteFolderRow folderId).parentOf a = some b) : t.parentOf a = some b := by
  unfold parentOf at h ⊢
  rw [get?_deleteFolderRow] at h
  split_ifs at h
  · cases h
  · exact h

/-- What is left is a forest, if it was one before but for its homes. -/
theorem deleteFolderRow_sound (hnamed : ∀ id, (t.folders.get? id).isSome → id ≠ "")
    (hparents : ∀ id folder parentId, t.folders.get? id = some folder →
      folder.parentFolderId = some parentId → ∃ parent, t.folders.get? parentId = some parent ∧
        parent.projectId = folder.projectId)
    (hacyclic : Forest.Acyclic (t.deleteFolderRow folderId).parentOf)
    (hunder : ∀ a b, t.parentOf a = some b → t.isUnder folderId (t.folders.size + 1) b = true →
      t.isUnder folderId (t.folders.size + 1) a = true)
    (hhomes : ∀ id workflow parentId, t.workflows.get? id = some workflow →
      workflow.parentFolderId = some parentId → (t.folders.get? parentId).isSome) :
    (t.deleteFolderRow folderId).Sound where
  named id hid := by
    rw [get?_deleteFolderRow] at hid
    split_ifs at hid
    · cases hid
    · exact hnamed id hid
  parents id folder parentId hfolder hparent := by
    rw [get?_deleteFolderRow] at hfolder
    split_ifs at hfolder with hgone
    obtain ⟨parent, hget, hproject⟩ := hparents id folder parentId hfolder hparent
    refine ⟨parent, ?_, hproject⟩
    rw [get?_deleteFolderRow, if_neg fun hup => hgone (hunder id parentId ?_ hup), hget]
    rw [parentOf_eq hfolder, hparent]
  acyclic := hacyclic
  homes id workflow parentId hworkflow hparent := by
    rw [get?_deleteFolderRow_workflows, Option.filter_eq_some_iff] at hworkflow
    obtain ⟨hget, hkept⟩ := hworkflow
    rw [hparent, Option.any_some, Bool.not_eq_true'] at hkept
    rw [get?_deleteFolderRow, hkept]
    exact hhomes id workflow parentId hget hparent

theorem Sound.deleteFolderRow (h : t.Sound) (folderId : String) :
    (t.deleteFolderRow folderId).Sound := by
  refine deleteFolderRow_sound h.named h.parents
    (h.acyclic.mono fun _ _ => parentOf_of_deleteFolderRow) (fun a b hab hb => ?_) h.homes
  exact (h.isUnder_iff folderId a).2 (.head hab ((h.isUnder_iff folderId b).1 hb))

/-! ### With its contents -/

/-- Folders do not change with the workflows in them. -/
theorem Sound.updateWorkflows (h : t.Sound) {where_ : String → FiledWorkflow → Bool}
    {change : FiledWorkflow → FiledWorkflow} (hchange : ∀ id workflow parentId,
      t.workflows.get? id = some workflow → where_ id workflow = true →
      (change workflow).parentFolderId = some parentId → (t.folders.get? parentId).isSome) :
    (t.updateWorkflows where_ change).Sound where
  named := h.named
  parents := h.parents
  acyclic := h.acyclic
  homes id workflow' parentId hworkflow hparent := by
    rw [get?_updateWorkflows] at hworkflow
    obtain ⟨workflow, hget, rfl⟩ := Option.map_eq_some_iff.1 hworkflow
    split_ifs at hparent with hwhere
    · exact hchange id workflow parentId hget hwhere hparent
    · exact h.homes id workflow parentId hget hparent

theorem get?_archiveAndMove (t : FolderTables) (mayArchive : String → Bool)
    (folderIds : List String) (id : String) :
    (t.archiveAndMove mayArchive folderIds).workflows.get? id = (t.workflows.get? id).map
      fun workflow => if isFiledIn folderIds workflow then { workflow with
        parentFolderId := none
        isArchived := workflow.isArchived || mayArchive id } else workflow := by
  rw [archiveAndMove, get?_updateWorkflows, get?_updateWorkflows, Option.map_map]
  refine congrArg (Option.map · _) (funext fun workflow => ?_)
  by_cases hfiled : isFiledIn folderIds workflow = true
  · have harchived : isFiledIn folderIds { workflow with isArchived := true } = true := hfiled
    cases mayArchive id <;> simp [hfiled, harchived]
  · simp [hfiled]

/-- Without a folder to transfer to, the contents go as well. -/
theorem Sound.flattens (h : t.Sound) {folderId projectId : String} (mayArchive : String → Bool)
    (hfolder : (t.findOneOrFailFolderInProject folderId projectId).isSome) :
    ∃ flat, t.flattenAndArchive mayArchive folderId projectId = some flat ∧
      (flat.deleteFolderRow folderId).Sound ∧
      t.Flattens mayArchive folderId (flat.deleteFolderRow folderId) := by
  obtain ⟨ids, hids, hmem⟩ := h.getAllFolderIdsInHierarchy hfolder
  have hfiled : ∀ parentId, parentId ∈ folderId :: ids ↔ t.AtOrBelow parentId folderId :=
    fun parentId => by
      rw [List.mem_cons, hmem, AtOrBelow, reflTransGen_iff_eq_or_transGen, eq_comm]
      rfl
  have hworkflows := get?_archiveAndMove t mayArchive (folderId :: ids)
  have hflat : (t.archiveAndMove mayArchive (folderId :: ids)).Sound := by
    refine ⟨h.named, h.parents, h.acyclic, fun id workflow' parentId hworkflow hparent => ?_⟩
    rw [hworkflows] at hworkflow
    obtain ⟨workflow, hget, rfl⟩ := Option.map_eq_some_iff.1 hworkflow
    split_ifs at hparent
    exact h.homes id workflow parentId hget hparent
  refine ⟨t.archiveAndMove mayArchive (folderId :: ids), by rw [flattenAndArchive, hids]; rfl,
    hflat.deleteFolderRow folderId, ?_⟩
  have hunder : ∀ id, (t.archiveAndMove mayArchive (folderId :: ids)).isUnder folderId
      ((t.archiveAndMove mayArchive (folderId :: ids)).folders.size + 1) id = true ↔
        t.AtOrBelow id folderId := hflat.isUnder_iff folderId
  constructor
  · intro id hid
    rw [get?_deleteFolderRow, if_pos ((hunder id).2 hid)]
  · intro id hid
    rw [get?_deleteFolderRow, if_neg fun hup => hid ((hunder id).1 hup)]
    rfl
  · intro id workflow parentId hget hparent hbelow
    have hin : isFiledIn (folderId :: ids) workflow = true := by
      rw [isFiledIn, hparent, Option.any_some, decide_eq_true_eq]
      exact (hfiled parentId).2 hbelow
    rw [get?_deleteFolderRow_workflows, hworkflows, hget, Option.map_some, if_pos hin]
    rfl
  · intro id hout
    rw [get?_deleteFolderRow_workflows, hworkflows]
    cases hget : t.workflows.get? id with
    | none => rfl
    | some workflow =>
      cases hparent : workflow.parentFolderId with
      | none => simp [isFiledIn, hparent]
      | some parentId =>
        have hbelow := hout workflow parentId hget hparent
        have hnot : parentId ∉ folderId :: ids := fun hin => hbelow ((hfiled parentId).1 hin)
        rw [Option.map_some, if_neg (by simpa [isFiledIn, hparent] using hnot),
          Option.filter_some, if_pos]
        rw [hparent, Option.any_some, Bool.not_eq_true', Bool.eq_false_iff]
        exact fun hup => hbelow ((hunder parentId).1 hup)

/-! ### With a folder for its contents -/

theorem isUnder_of_leaf {folderId : String} (hleaf : ∀ a, t.parentOf a ≠ some folderId) :
    ∀ (fuel : ℕ) (id : String), t.isUnder folderId (fuel + 1) id = decide (id = folderId)
  | 0, id => by
    rw [isUnder]
    cases t.parentOf id <;> simp [isUnder]
  | fuel + 1, id => by
    rw [isUnder]
    cases hparent : t.parentOf id with
    | none => simp
    | some parentId =>
      have hne : parentId ≠ folderId := fun heq => hleaf id (heq ▸ hparent)
      simp [isUnder_of_leaf hleaf fuel parentId, hne]

/-- Where nothing is in a folder, it takes no way between other folders with it. -/
theorem acyclic_of_deleteFolderRow {folderId : String} (hleaf : ∀ a, t.parentOf a ≠ some folderId)
    (h : Forest.Acyclic (t.deleteFolderRow folderId).parentOf) : Forest.Acyclic t.parentOf := by
  have hup : ∀ {a b}, a ≠ folderId → t.parentOf a = some b →
      (t.deleteFolderRow folderId).parentOf a = some b := fun {a b} ha hab => by
    rw [parentOf, get?_deleteFolderRow, isUnder_of_leaf hleaf, if_neg (by simpa using ha)]
    exact hab
  have hne : ∀ {a b}, TransGen (Forest.Up t.parentOf) a b → b ≠ folderId := by
    rintro a b hab rfl
    obtain ⟨c, -, hc⟩ := TransGen.tail'_iff.1 hab
    exact hleaf c hc
  intro a ha
  have hkeeps : ∀ {b}, TransGen (Forest.Up t.parentOf) a b →
      TransGen (Forest.Up (t.deleteFolderRow folderId).parentOf) a b := by
    intro b hab
    induction hab with
    | single hab => exact .single (hup (hne ha) hab)
    | tail hab hbc ih => exact ih.tail (hup (hne hab) hbc)
  exact h a (hkeeps ha)

theorem parentOf_moveAllToFolder (t : FolderTables) (folderId toFolderId : String) :
    (t.moveAllToFolder folderId toFolderId).parentOf =
      Forest.move t.parentOf (fun id => t.parentOf id = some folderId) (toParent toFolderId) := by
  refine Eq.trans parentOf_move (funext fun id => ?_)
  unfold Forest.move
  refine if_congr ?_ rfl rfl
  unfold parentOf
  cases hget : t.folders.get? id <;> simp [hget]

theorem not_parentOf_moveAllToFolder {folderId toFolderId : String} (hne : folderId ≠ toFolderId)
    (id : String) : (t.moveAllToFolder folderId toFolderId).parentOf id ≠ some folderId := by
  rw [parentOf_moveAllToFolder, Forest.move]
  split_ifs with hmoved
  · intro hto
    exact hne (toParent_eq_some hto).1
  · exact hmoved

/-- The contents go where they are sent. -/
theorem handsOver {folderId toFolderId : String} (hne : folderId ≠ toFolderId) :
    t.HandsOver folderId (toParent toFolderId)
      ((t.moveAllToFolder folderId toFolderId).deleteFolderRow folderId) := by
  have hunder := isUnder_of_leaf (not_parentOf_moveAllToFolder (t := t) hne)
  refine ⟨?_, fun id hid => ?_, fun id => ?_⟩
  · rw [get?_deleteFolderRow, hunder, if_pos (decide_eq_true rfl)]
  · rw [get?_deleteFolderRow, hunder, if_neg (by simpa using hid)]
    refine Eq.trans (get?_updateFolders _ _ _ _) ?_
    simp only [decide_eq_true_eq]
  · have hmoved : (t.moveAllToFolder folderId toFolderId).workflows.get? id =
        (t.workflows.get? id).map fun workflow =>
          if workflow.parentFolderId = some folderId then
            { workflow with parentFolderId := toParent toFolderId }
          else workflow := by
      refine Eq.trans (get?_updateWorkflows _ _ _ _) ?_
      simp only [decide_eq_true_eq]
      rfl
    rw [get?_deleteFolderRow_workflows, hmoved]
    cases t.workflows.get? id with
    | none => rfl
    | some workflow =>
      rw [Option.map_some, Option.filter_some, if_pos]
      have hto : toParent toFolderId ≠ some folderId := fun hto => hne (toParent_eq_some hto).1
      -- no workflow is in the folder any more
      rw [Bool.not_eq_true', Bool.eq_false_iff, ne_eq, Option.any_eq_true]
      rintro ⟨parentId, hparent, hup⟩
      rw [hunder, decide_eq_true_eq] at hup
      subst hup
      split_ifs at hparent with hin
      · exact hto hparent
      · exact hin hparent

/-- With a folder to transfer to, what is left is a forest exactly if that folder is not below the
one that is deleted. -/
theorem Sound.handOver_iff (h : t.Sound) {folderId toFolderId projectId : String}
    (hne : folderId ≠ toFolderId)
    (hfolder : (t.findOneOrFailFolderInProject folderId projectId).isSome)
    (hto : toFolderId = projectRoot ∨
      (t.findOneOrFailFolderInProject toFolderId projectId).isSome) :
    ((t.moveAllToFolder folderId toFolderId).deleteFolderRow folderId).Sound ↔
      ¬ (toFolderId ≠ projectRoot ∧ t.Below toFolderId folderId) := by
  constructor
  · rintro hsound ⟨hroot, hbelow⟩
    have hacyclic := acyclic_of_deleteFolderRow (not_parentOf_moveAllToFolder hne) hsound.acyclic
    rw [parentOf_moveAllToFolder] at hacyclic
    obtain ⟨child, hto', hchild⟩ := TransGen.tail'_iff.1 hbelow
    exact (Forest.acyclic_move_iff h.acyclic).1 hacyclic toFolderId (if_neg hroot) child hchild hto'
  · intro hno
    obtain ⟨folder, hget, hproject⟩ := findOneOrFailFolderInProject_isSome.1 hfolder
    have hmoved : (t.updateFolders (fun _ folder => folder.parentFolderId = some folderId)
        ({ · with parentFolderId := toParent toFolderId })).Sound := by
      refine (h.move_iff fun p hp id child hchild hwhere => ?_).2
        fun p hp id child hchild hwhere hbelow => ?_
      · obtain ⟨rfl, hroot⟩ := toParent_eq_some hp
        obtain ⟨parent, hget', hproject'⟩ :=
          findOneOrFailFolderInProject_isSome.1 (hto.resolve_left hroot)
        obtain ⟨above, habove, hproject''⟩ :=
          h.parents id child folderId hchild (of_decide_eq_true hwhere)
        obtain rfl := Option.some.inj (hget.symm.trans habove)
        exact ⟨parent, hget', by rw [hproject', ← hproject'', hproject]⟩
      · obtain ⟨rfl, hroot⟩ := toParent_eq_some hp
        refine hno ⟨hroot, .tail' hbelow ?_⟩
        rw [Forest.Up, parentOf_eq hchild, of_decide_eq_true hwhere]
    refine Sound.deleteFolderRow (hmoved.updateWorkflows ?_) folderId
    intro id workflow parentId _ _ hparent
    obtain ⟨rfl, hroot⟩ := toParent_eq_some hparent
    obtain ⟨parent, hget', -⟩ := findOneOrFailFolderInProject_isSome.1 (hto.resolve_left hroot)
    rw [isSome_updateFolders, hget']
    rfl

theorem Sound.ne_empty_of_below (h : t.Sound) {id folderId : String}
    (hbelow : t.Below id folderId) : id ≠ "" := by
  obtain ⟨parentId, hparent, -⟩ := TransGen.head'_iff.1 hbelow
  obtain ⟨folder, hget, -⟩ := exists_of_parentOf hparent
  exact h.named id (by rw [hget]; rfl)

/-- What is below a folder of a project is a folder of the project. -/
theorem Sound.find_of_below (h : t.Sound) {id folderId projectId : String}
    (hfolder : (t.findOneOrFailFolderInProject folderId projectId).isSome)
    (hbelow : t.AtOrBelow id folderId) :
    (t.findOneOrFailFolderInProject id projectId).isSome := by
  rcases reflTransGen_iff_eq_or_transGen.1 hbelow with heq | hbelow'
  · exact heq ▸ hfolder
  · obtain ⟨parentId, hparent, -⟩ := TransGen.head'_iff.1 hbelow'
    obtain ⟨folder, hget, -⟩ := exists_of_parentOf hparent
    obtain ⟨above, habove, hproject⟩ := h.project_of_atOrBelow hbelow hget
    obtain ⟨folder', hget', hproject'⟩ := findOneOrFailFolderInProject_isSome.1 hfolder
    obtain rfl := Option.some.inj (hget'.symm.trans habove)
    exact findOneOrFailFolderInProject_isSome.2 ⟨folder, hget, hproject.symm.trans hproject'⟩

theorem Sound.deleteFolder_iff (h : t.Sound) (mayArchive : String → Bool)
    (folderId projectId : String) (transferToFolderId : Option String) :
    (t.deleteFolder mayArchive folderId projectId transferToFolderId).tables.Sound ↔
      ¬ t.IntoItself (.delete mayArchive folderId projectId transferToFolderId) := by
  unfold FolderTables.deleteFolder
  split_ifs with hnone
  · refine iff_of_true h fun hinto => ?_
    cases transferToFolderId with
    | none => exact hinto
    | some transferToFolderId =>
      have hfound := hinto.1
      rw [Option.isNone_iff_eq_none.1 hnone] at hfound
      cases hfound
  · have hfolder : (t.findOneOrFailFolderInProject folderId projectId).isSome := by
      simpa [Option.isSome_iff_ne_none] using hnone
    obtain ⟨flat, hflat, hsound, -⟩ := h.flattens mayArchive hfolder
    cases transferToFolderId with
    | none =>
      simp only [Option.filter_none, hflat]
      exact iff_of_true hsound fun hinto => hinto
    | some target =>
      by_cases hempty : target = ""
      · subst hempty
        simp only [ne_eq, not_true_eq_false, decide_false, Option.filter_some, Bool.false_eq_true,
          if_false, hflat]
        exact iff_of_true hsound fun hinto => h.ne_empty_of_below hinto.2.2 rfl
      · rw [Option.filter_some, if_pos (decide_eq_true hempty)]
        simp only []
        split_ifs with hself hlost
        · subst hself
          exact iff_of_true h fun hinto => h.acyclic _ hinto.2.2
        · refine iff_of_true h fun hinto => ?_
          have hfound := h.find_of_below hfolder hinto.2.2.to_reflTransGen
          rw [Option.isNone_iff_eq_none.1 hlost.2] at hfound
          cases hfound
        · rw [h.handOver_iff hself hfolder (by
            rcases not_and_or.1 hlost with hroot | hfound
            · exact .inl (not_ne_iff.1 hroot)
            · exact .inr (by simpa [Option.isSome_iff_ne_none] using hfound))]
          refine not_congr ⟨fun hbelow => ⟨hfolder, hbelow⟩, fun hinto => hinto.2⟩

/-! ## Transfers -/

/-- The tables after a transfer of folders. -/
theorem Sound.transfer_iff (h : t.Sound) {childrenFolderIds : List String}
    {sourceFolderId sourceProjectId destinationProjectId destinationParentFolderId : String}
    (hfolder : (t.findOneOrFailFolderInProject sourceFolderId sourceProjectId).isSome)
    (hmem : ∀ id, id ∈ childrenFolderIds ↔ t.Below id sourceFolderId)
    (hto : destinationParentFolderId = projectRoot ∨
      (t.findOneOrFailFolderInProject destinationParentFolderId destinationProjectId).isSome) :
    (((t.updateFolders (fun folderId _ => folderId ∈ childrenFolderIds)
        ({ · with projectId := destinationProjectId })).updateFolders
      (fun folderId _ => folderId = sourceFolderId)
        ({ · with
          projectId := destinationProjectId
          parentFolderId := toParent destinationParentFolderId })).Sound ↔
      ¬ (destinationParentFolderId ≠ projectRoot ∧
        t.AtOrBelow destinationParentFolderId sourceFolderId)) := by
  obtain ⟨source, hsource, -⟩ := findOneOrFailFolderInProject_isSome.1 hfolder
  set t₁ := (t.updateFolders (fun folderId _ => folderId ∈ childrenFolderIds)
    ({ · with projectId := destinationProjectId })).updateFolders
      (fun folderId _ => folderId = sourceFolderId)
        ({ · with
          projectId := destinationProjectId
          parentFolderId := toParent destinationParentFolderId }) with ht₁
  have hup : ∀ {id parentId}, t.parentOf id = some parentId → (parentId = sourceFolderId ∨
      parentId ∈ childrenFolderIds) → id ∈ childrenFolderIds := by
    rintro id parentId hparent (rfl | hin)
    · exact (hmem id).2 (.single hparent)
    · exact (hmem id).2 (.head hparent ((hmem parentId).1 hin))
  -- what each folder is afterwards
  have hget : ∀ id, t₁.folders.get? id = (t.folders.get? id).map fun folder => { folder with
      projectId := if id = sourceFolderId ∨ id ∈ childrenFolderIds then destinationProjectId
        else folder.projectId
      parentFolderId := if id = sourceFolderId then toParent destinationParentFolderId
        else folder.parentFolderId } := by
    intro id
    rw [ht₁, get?_updateFolders, get?_updateFolders, Option.map_map]
    refine congrArg (Option.map · _) (funext fun folder => ?_)
    simp only [Function.comp_apply, decide_eq_true_eq]
    by_cases hid : id = sourceFolderId
    · have hin : id = sourceFolderId ∨ id ∈ childrenFolderIds := .inl hid
      rw [if_pos hid, if_pos hid, if_pos hin]
      split_ifs <;> rfl
    · simp only [hid, if_false, false_or]
      split_ifs <;> rfl
  have hisSome : ∀ id, (t₁.folders.get? id).isSome = (t.folders.get? id).isSome := fun id => by
    rw [hget, Option.isSome_map]
  have hparentOf : t₁.parentOf = Forest.move t.parentOf (· = sourceFolderId)
      (toParent destinationParentFolderId) := by
    funext id
    rw [parentOf, hget, Forest.move, parentOf]
    by_cases hid : id = sourceFolderId
    · simp [hid, hsource]
    · rw [if_neg hid]
      cases t.folders.get? id with
      | none => rfl
      | some folder => simp [hid]
  have hacyclic : Forest.Acyclic t₁.parentOf ↔ ¬ (destinationParentFolderId ≠ projectRoot ∧
      t.AtOrBelow destinationParentFolderId sourceFolderId) := by
    rw [hparentOf, Forest.acyclic_move_iff h.acyclic]
    constructor
    · rintro hno ⟨hroot, hbelow⟩
      exact hno _ (if_neg hroot) sourceFolderId rfl hbelow
    · rintro hno p hp a rfl hbelow
      obtain ⟨rfl, hroot⟩ := toParent_eq_some hp
      exact hno ⟨hroot, hbelow⟩
  refine ⟨fun hsound => hacyclic.1 hsound.acyclic, fun hno => ⟨fun id hid => ?_,
    fun id folder' parentId hfolder' hparent => ?_, hacyclic.2 hno,
    fun workflowId workflow parentId hworkflow hparent => ?_⟩⟩
  · exact h.named id (by rwa [hisSome] at hid)
  · rw [hget] at hfolder'
    obtain ⟨folder, hid, rfl⟩ := Option.map_eq_some_iff.1 hfolder'
    by_cases hsame : id = sourceFolderId
    · simp only [hsame, if_true, true_or] at hparent ⊢
      obtain ⟨rfl, hroot⟩ := toParent_eq_some hparent
      obtain ⟨parent, hget', hproject⟩ :=
        findOneOrFailFolderInProject_isSome.1 (hto.resolve_left hroot)
      refine ⟨_, by rw [hget, hget']; rfl, ?_⟩
      simp [hproject]
    · simp only [hsame, if_false, false_or] at hparent ⊢
      obtain ⟨parent, hget', hproject⟩ := h.parents id folder parentId hid hparent
      refine ⟨_, by rw [hget, hget']; rfl, ?_⟩
      have hin : (parentId = sourceFolderId ∨ parentId ∈ childrenFolderIds) ↔
          id ∈ childrenFolderIds := by
        have hedge : t.parentOf id = some parentId := by rw [parentOf_eq hid, hparent]
        refine ⟨hup hedge, fun hin => ?_⟩
        obtain ⟨c, hc, hcs⟩ := TransGen.head'_iff.1 ((hmem id).1 hin)
        obtain rfl := Forest.rightUnique_up _ hc hedge
        rcases reflTransGen_iff_eq_or_transGen.1 hcs with heq | hbelow
        · exact .inl heq.symm
        · exact .inr ((hmem c).2 hbelow)
      simp only [hin, hproject]
  · rw [hisSome]
    exact h.homes workflowId workflow parentId hworkflow hparent

theorem isFiledIn_iff {folderIds : List String} {folderId : String}
    (hmem : ∀ id, id ∈ folderIds ↔ t.Below id folderId) (workflow : FiledWorkflow) :
    isFiledIn (folderIds ++ [folderId]) workflow = true ↔
      ∃ parentId, workflow.parentFolderId = some parentId ∧ t.AtOrBelow parentId folderId := by
  rw [isFiledIn, Option.any_eq_true]
  refine exists_congr fun parentId => and_congr_right fun _ => ?_
  rw [decide_eq_true_eq, List.mem_append, hmem, List.mem_singleton, AtOrBelow,
    reflTransGen_iff_eq_or_transGen, or_comm, eq_comm]
  rfl

theorem Sound.transferFolder_iff (h : t.Sound) (mayCreate : Bool) (sourceProjectId sourceFolderId
    destinationProjectId destinationParentFolderId : String) :
    (t.transferFolder mayCreate sourceProjectId sourceFolderId destinationProjectId
      destinationParentFolderId).tables.Sound ↔
      ¬ t.IntoItself (.transfer mayCreate sourceProjectId sourceFolderId destinationProjectId
        destinationParentFolderId) := by
  unfold FolderTables.transferFolder
  cases hids : t.getAllFolderIdsInHierarchy sourceFolderId sourceProjectId with
  | none =>
    refine iff_of_true h fun hinto => ?_
    obtain ⟨ids, hids', -⟩ := h.getAllFolderIdsInHierarchy hinto.2.1
    rw [hids] at hids'
    cases hids'
  | some ids =>
    have hmem : (t.findOneOrFailFolderInProject sourceFolderId sourceProjectId).isSome →
        ∀ id, id ∈ ids ↔ t.Below id sourceFolderId := fun hfolder => by
      obtain ⟨ids', hids', hmem⟩ := h.getAllFolderIdsInHierarchy hfolder
      exact Option.some.inj (hids'.symm.trans hids) ▸ hmem
    simp only []
    split_ifs with hmay hlost hnone hown
    · exact iff_of_true h fun hinto => by simp [hinto.1] at hmay
    · refine iff_of_true h fun hinto => ?_
      have hfound := hinto.2.2.1
      rw [Option.isNone_iff_eq_none.1 hlost.2] at hfound
      cases hfound
    · refine iff_of_true h fun hinto => ?_
      have hfound := hinto.2.1
      rw [Option.isNone_iff_eq_none.1 hnone] at hfound
      cases hfound
    · have hfolder : (t.findOneOrFailFolderInProject sourceFolderId sourceProjectId).isSome := by
        simpa [Option.isSome_iff_ne_none] using hnone
      refine iff_of_true h fun hinto => ?_
      obtain ⟨⟨workflowId, workflow⟩, hin, hboth⟩ := List.any_eq_true.1 hown
      obtain ⟨hfiled, hproject⟩ := Bool.and_eq_true_iff.1 hboth
      obtain ⟨parentId, hparent, hbelow⟩ := (isFiledIn_iff (hmem hfolder) workflow).1 hfiled
      exact hinto.2.2.2.2.2 workflowId workflow parentId (Dict.mem_entries.1 hin) hparent hbelow
        (of_decide_eq_true hproject)
    · have hfolder : (t.findOneOrFailFolderInProject sourceFolderId sourceProjectId).isSome := by
        simpa [Option.isSome_iff_ne_none] using hnone
      have hto : destinationParentFolderId = projectRoot ∨ (t.findOneOrFailFolderInProject
          destinationParentFolderId destinationProjectId).isSome := by
        rcases not_and_or.1 hlost with hroot | hfound
        · exact .inl (not_ne_iff.1 hroot)
        · exact .inr (by simpa [Option.isSome_iff_ne_none] using hfound)
      have howned : (t.updateWorkflows (fun _ => isFiledIn (ids ++ [sourceFolderId]))
          ({ · with projectId := destinationProjectId })).Sound :=
        h.updateWorkflows fun id workflow parentId hget _ hparent =>
          h.homes id workflow parentId hget hparent
      refine (howned.transfer_iff hfolder (hmem hfolder) hto).trans (not_congr ?_)
      refine ⟨fun ⟨hroot, hbelow⟩ => ⟨by simpa using hmay, hfolder, hto.resolve_left hroot, hroot,
        hbelow, fun workflowId workflow parentId hget hparent hin hproject => hown ?_⟩,
        fun hinto => ⟨hinto.2.2.2.1, hinto.2.2.2.2.1⟩⟩
      refine List.any_eq_true.2 ⟨(workflowId, workflow), Dict.mem_entries.2 hget, ?_⟩
      rw [Bool.and_eq_true_iff, (isFiledIn_iff (hmem hfolder) workflow)]
      exact ⟨⟨parentId, hparent, hin⟩, decide_eq_true hproject⟩

theorem Sound.transferAllFoldersToProject (h : t.Sound) (fromProjectId toProjectId : String) :
    (t.transferAllFoldersToProject fromProjectId toProjectId).Sound := by
  have hget : ∀ id, (t.transferAllFoldersToProject fromProjectId toProjectId).folders.get? id =
      (t.folders.get? id).map fun folder => { folder with
        projectId := if folder.projectId = fromProjectId then toProjectId
          else folder.projectId } := by
    intro id
    refine (get?_updateFolders _ _ _ _).trans (congrArg (Option.map · _) (funext fun folder => ?_))
    simp only [decide_eq_true_eq]
    split_ifs <;> rfl
  refine ⟨fun id hid => ?_, fun id folder' parentId hfolder' hparent => ?_, ?_,
    fun workflowId workflow parentId hworkflow hparent => ?_⟩
  · rw [hget, Option.isSome_map] at hid
    exact h.named id hid
  · rw [hget] at hfolder'
    obtain ⟨folder, hid, rfl⟩ := Option.map_eq_some_iff.1 hfolder'
    obtain ⟨parent, hget', hproject⟩ := h.parents id folder parentId hid hparent
    exact ⟨_, by rw [hget, hget']; rfl, by simp only [hproject]⟩
  · refine h.acyclic.mono fun a b hab => ?_
    rw [parentOf, hget] at hab
    rw [parentOf, ← hab]
    cases t.folders.get? a <;> rfl
  · rw [hget, Option.isSome_map]
    exact h.homes workflowId workflow parentId hworkflow hparent

theorem Sound.fileWorkflow (h : t.Sound) (workflowId parentFolderId : String) :
    (t.fileWorkflow workflowId parentFolderId).tables.Sound := by
  unfold FolderTables.fileWorkflow
  split
  · exact h
  · split_ifs with _ hlost
    · exact h
    · exact h
    · refine h.updateWorkflows fun _ _ parentId _ _ hparent => ?_
      obtain ⟨rfl, hroot⟩ := toParent_eq_some hparent
      have hfound := (not_and_or.1 hlost).resolve_left (not_not_intro hroot)
      obtain ⟨parent, hget, -⟩ := findOneOrFailFolderInProject_isSome.1
        (by simpa [Option.isSome_iff_ne_none] using hfound)
      rw [hget]
      rfl

/-! ## Runs -/

/-- A request leaves a forest exactly if it does not take a folder into itself. -/
theorem Sound.step_iff (h : t.Sound) (harrange : ∀ rows, (arrange rows).Perm rows)
    (request : FolderRequest) : (t.step arrange request).Sound ↔ ¬ t.IntoItself request := by
  cases request with
  | create newId name parentFolderId projectId =>
    exact iff_of_true (h.createFolder newId.2 name parentFolderId projectId) fun hinto => hinto
  | update folderId projectId name parentFolderId =>
    exact iff_of_true (h.updateFolder harrange folderId projectId name parentFolderId)
      fun hinto => hinto
  | delete mayArchive folderId projectId transferToFolderId =>
    exact h.deleteFolder_iff mayArchive folderId projectId transferToFolderId
  | transfer mayCreate sourceProjectId sourceFolderId destinationProjectId
      destinationParentFolderId =>
    exact h.transferFolder_iff mayCreate sourceProjectId sourceFolderId destinationProjectId
      destinationParentFolderId
  | transferAll fromProjectId toProjectId =>
    exact iff_of_true (h.transferAllFoldersToProject fromProjectId toProjectId) fun hinto => hinto
  | file workflowId parentFolderId =>
    exact iff_of_true (h.fileWorkflow workflowId parentFolderId) fun hinto => hinto

theorem sound_empty : ({} : FolderTables).Sound where
  named _ hid := by cases hid
  parents _ _ _ hfolder _ := by cases hfolder
  acyclic a ha := by
    obtain ⟨b, hab, -⟩ := TransGen.head'_iff.1 ha
    cases hab
  homes _ _ _ hworkflow _ := by cases hworkflow

/-- A folder in a folder, and a workflow in that. -/
def nested : FolderTables :=
  let folders := (({} : FolderTables).createFolder "a" "A" none "p").tables
  { (folders.createFolder "b" "B" (some "a") "p").tables with
    workflows := Dict.empty.set "w" ⟨some "b", "p", false⟩ }

theorem sound_nested : nested.Sound := by
  have hfolders : ((({} : FolderTables).createFolder "a" "A" none "p").tables.createFolder "b" "B"
      (some "a") "p").tables.Sound :=
    (sound_empty.createFolder (by decide) _ _ _).createFolder (by decide) _ _ _
  refine ⟨hfolders.named, hfolders.parents, hfolders.acyclic, ?_⟩
  intro workflowId workflow parentId hworkflow hparent
  rw [nested, Dict.get?_set] at hworkflow
  split_ifs at hworkflow
  · obtain rfl := Option.some.inj hworkflow
    obtain rfl := Option.some.inj hparent
    rfl
  · cases hworkflow

/-- Along a run, the folders stay a forest, so that no query on them goes on for ever, exactly if no
request takes a folder into itself. -/
theorem folders_stay_forest (h : t.Sound) (harrange : ∀ rows, (arrange rows).Perm rows)
    (requests : List FolderRequest) :
    Runs.Along (step arrange) Sound t requests ↔
      Runs.Meets (step arrange) (fun t request => ¬ t.IntoItself request) t requests := by
  have hall : Runs.Meets (step arrange) (fun _ _ => True) t requests :=
    Runs.meets_of_forall fun _ _ => trivial
  refine Runs.along_iff_meets (I := Sound) (fun _ h => h) ?_ ?_ h hall
  · exact fun _ request h _ hnot => (h.step_iff harrange request).2 hnot
  · exact fun _ request h _ hinto hsound => hinto ((h.step_iff harrange request).1 hsound)

theorem folders_break : ¬ Runs.Along (step List.reverse) Sound nested
    [.update "b" "p" (some "C") none, .delete (fun _ => true) "a" "p" (some "b")] := by
  rw [folders_stay_forest sound_nested List.reverse_perm]
  rintro ⟨-, hnot, -⟩
  exact hnot ⟨rfl, by decide, .single rfl⟩

/-! ## What is kept -/

theorem Flattens.isSome_workflows {mayArchive : String → Bool} {folderId : String}
    (h : t.Flattens mayArchive folderId t') (id : String) :
    (t'.workflows.get? id).isSome = (t.workflows.get? id).isSome := by
  by_cases hin : ∃ workflow parentId, t.workflows.get? id = some workflow ∧
      workflow.parentFolderId = some parentId ∧ t.AtOrBelow parentId folderId
  · obtain ⟨workflow, parentId, hget, hparent, hbelow⟩ := hin
    rw [h.raised id workflow parentId hget hparent hbelow, hget]
    rfl
  · push Not at hin
    rw [h.left id hin]

theorem Deletes.isSome_workflows {mayArchive : String → Bool} {folderId : String}
    {target : Option String} (h : t.Deletes mayArchive folderId target t') (id : String) :
    (t'.workflows.get? id).isSome = (t.workflows.get? id).isSome := by
  cases target with
  | none => exact Flattens.isSome_workflows h id
  | some target => rw [HandsOver.workflows h, Option.isSome_map]

/-- A deletion fails and changes nothing, or it does what it should. -/
theorem Sound.deletes (h : t.Sound) (mayArchive : String → Bool) (folderId projectId : String)
    (transferToFolderId : Option String) :
    (∃ e ≠ .endless, ¬ t.MayDelete folderId projectId (transferToFolderId.filter (· ≠ "")) ∧
      t.deleteFolder mayArchive folderId projectId transferToFolderId = ⟨t, some e⟩) ∨
    ∃ t', t.MayDelete folderId projectId (transferToFolderId.filter (· ≠ "")) ∧
      t.deleteFolder mayArchive folderId projectId transferToFolderId = ⟨t', none⟩ ∧
      t.Deletes mayArchive folderId (transferToFolderId.filter (· ≠ "")) t' := by
  unfold FolderTables.deleteFolder MayDelete
  by_cases hfolder : (t.findOneOrFailFolderInProject folderId projectId).isSome
  · rw [if_neg (by simpa [Option.isSome_iff_ne_none] using hfolder)]
    cases htarget : transferToFolderId.filter (· ≠ "") with
    | none =>
      obtain ⟨flat, hflat, -, hflattens⟩ := h.flattens mayArchive hfolder
      exact .inr ⟨_, ⟨hfolder, by simp⟩, by simp only [hflat], hflattens⟩
    | some target =>
      simp only []
      split_ifs with hself hlost
      · exact .inl ⟨_, by simp, fun hmay => (hmay.2 target rfl).1 hself, rfl⟩
      · refine .inl ⟨_, by simp, fun hmay => ?_, rfl⟩
        rcases (hmay.2 target rfl).2 with hroot | hfound
        · exact hlost.1 hroot
        · rw [Option.isNone_iff_eq_none.1 hlost.2] at hfound
          cases hfound
      · refine .inr ⟨_, ⟨hfolder, ?_⟩, rfl, handsOver hself⟩
        rintro _ ⟨⟩
        refine ⟨hself, (not_and_or.1 hlost).imp not_ne_iff.1 fun hfound => ?_⟩
        simpa [Option.isSome_iff_ne_none] using hfound
  · rw [if_pos (by simpa [Option.isSome_iff_ne_none] using hfolder)]
    exact .inl ⟨_, by simp, fun hmay => hfolder hmay.1, rfl⟩

/-- A deletion ends. It goes through exactly if it may; then the folder is gone, and its contents
are where they should be, or else nothing has changed. -/
theorem deleteFolder_exact (h : t.Sound) (mayArchive : String → Bool) (folderId projectId : String)
    (transferToFolderId : Option String) :
    (t.deleteFolder mayArchive folderId projectId transferToFolderId).error ≠ some .endless ∧
    ((t.deleteFolder mayArchive folderId projectId transferToFolderId).error = none ↔
      t.MayDelete folderId projectId (transferToFolderId.filter (· ≠ ""))) ∧
    (t.MayDelete folderId projectId (transferToFolderId.filter (· ≠ "")) →
      t.Deletes mayArchive folderId (transferToFolderId.filter (· ≠ ""))
        (t.deleteFolder mayArchive folderId projectId transferToFolderId).tables) ∧
    (¬ t.MayDelete folderId projectId (transferToFolderId.filter (· ≠ "")) →
      (t.deleteFolder mayArchive folderId projectId transferToFolderId).tables = t) := by
  rcases h.deletes mayArchive folderId projectId transferToFolderId with
    ⟨e, he, hnot, heq⟩ | ⟨t', hmay, heq, hdeletes⟩
  · rw [heq]
    exact ⟨fun hend => he (Option.some.inj hend), iff_of_false nofun hnot,
      fun hmay => absurd hmay hnot, fun _ => rfl⟩
  · rw [heq]
    exact ⟨nofun, iff_of_true rfl hmay, fun _ => hdeletes, fun hnot => absurd hmay hnot⟩

theorem workflows_updateFolder (folderId projectId : String) (name parentFolderId : Option String) :
    (t.updateFolder arrange folderId projectId name parentFolderId).tables.workflows =
      t.workflows := by
  unfold FolderTables.updateFolder
  extract_lets renamed
  split_ifs
  · rfl
  have hrenamed : renamed.workflows = t.workflows := by
    simp only [renamed]
    cases name.filter (· ≠ "") <;> rfl
  split
  · exact hrenamed
  · split <;> exact hrenamed

theorem deleteFolder_nested :
    (nested.deleteFolder (fun _ => true) "a" "p" none).error = none ∧
      nested.Deletes (fun _ => true) "a" none
        (nested.deleteFolder (fun _ => true) "a" "p" none).tables := by
  obtain ⟨-, hnone, hdeletes, -⟩ := deleteFolder_exact sound_nested (fun _ => true) "a" "p" none
  have hmay : nested.MayDelete "a" "p" none := ⟨rfl, nofun⟩
  exact ⟨hnone.2 hmay, hdeletes hmay⟩

/-- No request loses a workflow. -/
theorem Sound.isSome_workflows_step (h : t.Sound) (request : FolderRequest) (id : String) :
    ((t.step arrange request).workflows.get? id).isSome = (t.workflows.get? id).isSome := by
  cases request with
  | create newId name parentFolderId projectId =>
    unfold FolderTables.step handle FolderTables.createFolder
    simp only []
    split
    · split_ifs <;> rfl
    · split_ifs <;> rfl
  | update folderId projectId name parentFolderId =>
    exact congrArg (fun workflows => (workflows.get? id).isSome)
      (workflows_updateFolder folderId projectId name parentFolderId)
  | delete mayArchive folderId projectId transferToFolderId =>
    have hstep : t.step arrange (.delete mayArchive folderId projectId transferToFolderId) =
        (t.deleteFolder mayArchive folderId projectId transferToFolderId).tables := rfl
    rcases h.deletes mayArchive folderId projectId transferToFolderId with
      ⟨e, -, -, heq⟩ | ⟨t', -, heq, hdeletes⟩
    · rw [hstep, heq]
    · rw [hstep, heq]
      exact hdeletes.isSome_workflows id
  | transfer mayCreate sourceProjectId sourceFolderId destinationProjectId
      destinationParentFolderId =>
    unfold FolderTables.step handle FolderTables.transferFolder
    simp only []
    split
    · rfl
    · split_ifs
      all_goals try rfl
      exact (congrArg Option.isSome (get?_updateWorkflows _ _ _ _)).trans Option.isSome_map
  | transferAll fromProjectId toProjectId => rfl
  | file workflowId parentFolderId =>
    unfold FolderTables.step handle FolderTables.fileWorkflow
    simp only []
    split
    · rfl
    · split_ifs
      all_goals try rfl
      exact (congrArg Option.isSome (get?_updateWorkflows _ _ _ _)).trans Option.isSome_map

theorem workflows_kept (h : t.Sound) (harrange : ∀ rows, (arrange rows).Perm rows)
    (requests : List FolderRequest)
    (hmeets : Runs.Meets (step arrange) (fun t request => ¬ t.IntoItself request) t requests)
    (id : String) :
    ((Runs.run (step arrange) t requests).workflows.get? id).isSome =
      (t.workflows.get? id).isSome := by
  induction requests generalizing t with
  | nil => rfl
  | cons request requests ih =>
    rw [Runs.run_cons, ih ((h.step_iff harrange request).2 hmeets.1) hmeets.2,
      h.isSome_workflows_step request id]

theorem workflows_kept_nested :
    ((Runs.run (step List.reverse) nested
      [.delete (fun _ => true) "a" "p" none]).workflows.get? "w").isSome = true := by
  have hmeets : Runs.Meets (step List.reverse) (fun t request => ¬ t.IntoItself request) nested
      [.delete (fun _ => true) "a" "p" none] := ⟨fun hinto => hinto, trivial⟩
  rw [workflows_kept sound_nested List.reverse_perm _ hmeets]
  rfl

end FolderTables

end N8n
