import N8n.FileSystemHelpers

/-!
# Restrictions through links

The check compares texts: the directories as they are listed, and the path as it is given where it
does not exist.
-/

namespace N8n

namespace FileSystemHelpers

open Paths FileTree

variable (t : FileTree) (links : ℕ) (allowedPaths restrictedPaths : List String)

/-! ## Places -/

/-- A place lies inside the real location of a directory. -/
def Inside (directory : String) (location : Location) : Prop :=
  ∃ place, writeLocation t links directory = .ok place ∧ place <+: location

/-- Inside of an allowed directory, if there are any, and of no restricted one. -/
def Permitted (location : Location) : Prop :=
  (allowedPaths ≠ [] → ∃ directory ∈ allowedPaths, Inside t links directory location) ∧
    ∀ directory ∈ restrictedPaths, ¬ Inside t links directory location

/-- If the check answers false, a read or a write of the path reaches a permitted place. -/
def KeepsRestrictions (filePath : String) : Prop :=
  isFilePathBlocked t links allowedPaths restrictedPaths filePath = .ok false →
    ∀ location, readLocation t links filePath = .ok location ∨
      writeLocation t links filePath = .ok location →
        Permitted t links allowedPaths restrictedPaths location

/-! ## What the check compares -/

/-- The path meets no link. -/
def MeetsNoLink (path : String) : Prop := t.Direct (t.start path.toList) (components path.toList)

/-- The path exists or meets no link: then its real location is compared. -/
def Located (filePath : String) : Prop :=
  (∃ location, readLocation t links filePath = .ok location) ∨ MeetsNoLink t filePath

/-- A path is refused for its text. -/
def Refused (path : String) : Prop :=
  (∃ directory ∈ restrictedPaths, isContainedWithin t directory path = true) ∨
    (allowedPaths ≠ [] ∧ ∀ directory ∈ allowedPaths, isContainedWithin t directory path = false)

/-- Wherever a write of the path reaches, unless its text is refused: no restricted directory has the
place inside, or the real location of the path is compared with that of the directory; and so for
an allowed one. -/
def ComparesRealLocations (filePath : String) : Prop :=
  ∀ location path, writeLocation t links filePath = .ok location →
    resolvedFilePath t links filePath = .ok path →
      Refused t allowedPaths restrictedPaths path ∨
      (∀ directory ∈ restrictedPaths, ¬ Inside t links directory location ∨
        (Located t links filePath ∧ MeetsNoLink t directory ∧ resolve t directory ≠ "/")) ∧
      (allowedPaths ≠ [] → (∃ directory ∈ allowedPaths, Inside t links directory location) ∨
        (Located t links filePath ∧ ∃ directory ∈ allowedPaths,
          isContainedWithin t directory path = true ∧ MeetsNoLink t directory ∧
            ∃ place, writeLocation t links directory = .ok place))

variable {t links allowedPaths restrictedPaths} {filePath path : String} {location : Location}

/-! ## Texts -/

theorem named_proper (path : String) : ∀ name ∈ named t path, Proper name :=
  normalize_proper (proper_start path.toList) fun _ => slash_not_mem_components

theorem location_of_writeLocation (h : writeLocation t links path = .ok location) :
    (t.walk links path.toList).location = some location := by
  unfold writeLocation at h
  split at h
  · rename_i hwalk
    rw [hwalk]
    exact congrArg some (Except.ok.inj h)
  · rename_i hwalk
    rw [hwalk]
    exact congrArg some (Except.ok.inj h)
  · cases h

theorem writeLocation_of_readLocation (h : readLocation t links path = .ok location) :
    writeLocation t links path = .ok location := by
  unfold readLocation at h
  unfold writeLocation
  split at h
  · exact h
  · cases h
  · cases h

theorem writeLocation_proper (h : writeLocation t links path = .ok location) :
    ∀ name ∈ location, Proper name :=
  walk_proper links path.toList location (location_of_writeLocation h)

/-- A path that meets no link reaches the place that it names. -/
theorem eq_named (hdirect : MeetsNoLink t path) (h : writeLocation t links path = .ok location) :
    location = named t path :=
  walk_direct hdirect (location_of_writeLocation h)

theorem resolve_text (hlocation : ∀ name ∈ location, Proper name) :
    resolve t (String.ofList (text location)) = String.ofList (text location) := by
  unfold resolve named
  rw [String.toList_ofList]
  exact congrArg (fun location => String.ofList (text location)) (components_text hlocation)

theorem isContainedWithin_iff (hlocation : ∀ name ∈ location, Proper name) :
    isContainedWithin t path (String.ofList (text location)) = true ↔
      named t path = location ∨ (named t path ≠ [] ∧ named t path <+: location) := by
  rw [← within_iff (named_proper path) hlocation]
  unfold isContainedWithin within
  dsimp only
  rw [resolve_text hlocation]
  unfold resolve
  simp [String.ofList_inj]

/-- The path that is compared is the real location. -/
theorem resolved_eq_text (hlocated : Located t links filePath)
    (hreach : writeLocation t links filePath = .ok location)
    (hresolved : resolvedFilePath t links filePath = .ok path) :
    path = String.ofList (text location) := by
  unfold resolvedFilePath fsRealpath at hresolved
  unfold writeLocation at hreach
  cases hwalk : t.walk links filePath.toList with
  | found place =>
    rw [hwalk] at hresolved hreach
    exact Except.ok.inj hreach ▸ (Except.ok.inj hresolved).symm
  | missing place =>
    rw [hwalk] at hresolved hreach
    have hdirect : MeetsNoLink t filePath := by
      refine hlocated.resolve_left ?_
      rintro ⟨place', hread⟩
      unfold readLocation at hread
      rw [hwalk] at hread
      cases hread
    have hmissing : writeLocation t links filePath = .ok place := by
      unfold writeLocation
      rw [hwalk]
    rw [← Except.ok.inj hreach, eq_named hdirect hmissing]
    exact (Except.ok.inj hresolved).symm
  | error error =>
    rw [hwalk] at hreach
    cases hreach

theorem isFilePathBlocked_iff :
    isFilePathBlocked t links allowedPaths restrictedPaths filePath = .ok false ↔
      ∃ path, resolvedFilePath t links filePath = .ok path ∧
        ¬ Refused t allowedPaths restrictedPaths path := by
  unfold isFilePathBlocked
  cases hresolved : resolvedFilePath t links filePath with
  | error error =>
    refine iff_of_false (fun h => by cases h) ?_
    rintro ⟨path, h, -⟩
    cases h
  | ok path =>
    refine Iff.trans ?_ (by simp : ¬ Refused t allowedPaths restrictedPaths path ↔ _)
    change (if restrictedPaths.any (isContainedWithin t · path) then Except.ok true
      else if allowedPaths ≠ [] then .ok !allowedPaths.any (isContainedWithin t · path)
      else .ok false) = Except.ok false ↔ _
    unfold Refused
    split_ifs with hrestricted hallowed <;> simp_all

/-! ## The restrictions -/

/-- A directory whose text is compared with the real location is seen to hold it. -/
theorem contained_of_inside (hlocation : ∀ name ∈ location, Proper name) {directory : String}
    (hdirect : MeetsNoLink t directory) (hroot : resolve t directory ≠ "/")
    (hinside : Inside t links directory location) :
    isContainedWithin t directory (String.ofList (text location)) = true := by
  obtain ⟨place, hplace, hprefix⟩ := hinside
  rw [eq_named hdirect hplace] at hprefix
  refine (isContainedWithin_iff hlocation).2 (.inr ⟨fun hnil => hroot ?_, hprefix⟩)
  unfold resolve
  rw [hnil]
  rfl

theorem inside_of_contained (hlocation : ∀ name ∈ location, Proper name) {directory : String}
    (hdirect : MeetsNoLink t directory) {place : Location}
    (hplace : writeLocation t links directory = .ok place)
    (hcontained : isContainedWithin t directory (String.ofList (text location)) = true) :
    Inside t links directory location := by
  refine ⟨place, hplace, ?_⟩
  rw [eq_named hdirect hplace]
  rcases (isContainedWithin_iff hlocation).1 hcontained with heq | ⟨-, hprefix⟩
  · rw [heq]
  · exact hprefix

/-- Two directories, and in the first a link to the second. -/
def linkedTree : FileTree where
  entry location :=
    if location = [] ∨ location = [['d']] ∨ location = [['e']] then some .directory
    else if location = [['d'], ['l']] then some (.link ['/', 'e'])
    else none
  root := by decide
  parent location name h := by
    rcases location with _ | ⟨first, _ | ⟨second, rest⟩⟩
    · rfl
    · by_cases hfirst : first = ['d']
      · simp [hfirst]
      · simp [hfirst] at h
    · simp at h
  proper location name h := by
    rcases location with _ | ⟨first, _ | ⟨second, rest⟩⟩
    · by_cases hname : name = ['d'] ∨ name = ['e']
      · rcases hname with rfl | rfl <;> unfold Proper <;> decide
      · simp_all
    · by_cases hname : name = ['l']
      · subst hname
        unfold Proper
        decide
      · simp_all
    · simp at h
  cwd := []
  cwd_directory := by decide

theorem linkedTree_new :
    writeLocation linkedTree 40 "/d/l/n" = .ok [['e'], ['n']] ∧
      resolvedFilePath linkedTree 40 "/d/l/n" =
        .ok (String.ofList (text [['d'], ['l'], ['n']])) := by
  have hpath : "/d/l/n".toList = ['/', 'd', '/', 'l', '/', 'n'] := by decide
  unfold writeLocation resolvedFilePath fsRealpath resolve named
  rw [hpath]
  exact ⟨by decide, by decide⟩

theorem linkedTree_directories :
    named linkedTree "/d" = [['d']] ∧ named linkedTree "/e" = [['e']] ∧
      writeLocation linkedTree 40 "/e" = .ok [['e']] := by
  have hallowed : "/d".toList = ['/', 'd'] := by decide
  have hrestricted : "/e".toList = ['/', 'e'] := by decide
  unfold named writeLocation
  rw [hallowed, hrestricted]
  exact ⟨by decide, by decide, by decide⟩

end FileSystemHelpers

end N8n
