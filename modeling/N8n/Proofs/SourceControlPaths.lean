import N8n.Proofs.FileSystemHelpers
import N8n.SourceControlPaths

/-!
# Which paths are accepted

The test at the end is about the path as it came, which is resolved from the working directory and
not from the folder. It is also wrong for the root, since the text of a folder and a slash are not
the start of a path in the root.
-/

namespace N8n

namespace SourceControlPaths

open Paths FileSystemHelpers

variable {t : FileTree} {gitFolderPath filePath : String}

theorem named_of_isAbsolute {path : String} (h : isAbsolute path.toList = true) :
    named t path = place path := by
  unfold named FileTree.start place
  rw [if_pos h]

/-- One path is contained within the other, as text. -/
theorem contained_iff {parentPath childPath : String} :
    isContainedWithin t parentPath childPath = true ↔ named t parentPath = named t childPath ∨
      (named t parentPath ≠ [] ∧ named t parentPath <+: named t childPath) := by
  rw [← within_iff (named_proper parentPath) (named_proper childPath)]
  unfold isContainedWithin within resolve
  simp [String.ofList_inj]

/-- A slash at the end says nothing. -/
theorem normalize_text_slash {location : Location} (h : ∀ name ∈ location, Proper name) :
    normalize [] (components (text location ++ ['/'])) = location := by
  rw [components_append_slash, normalize_append, components_text h]
  rfl

/-- An absolute path stays absolute and names the same place. -/
theorem normalizePath_of_isAbsolute {path : List Char} (h : isAbsolute path = true) :
    isAbsolute (normalizePath path) = true ∧
      normalize [] (components (normalizePath path)) = normalize [] (components path) := by
  have hne : path ≠ [] := by
    rintro rfl
    cases h
  have hproper : ∀ name ∈ normalize [] (components path), Proper name :=
    normalize_proper (fun _ h => absurd h List.not_mem_nil) fun _ => slash_not_mem_components
  unfold normalizePath
  dsimp only
  rw [if_neg hne, if_pos h]
  split_ifs with hroot htrailing
  · exact ⟨rfl, hroot.symm⟩
  · exact ⟨rfl, normalize_text_slash hproper⟩
  · rw [List.append_nil]
    exact ⟨rfl, components_text hproper⟩

/-- The joined path is absolute, and it is the place of the path from the folder. -/
theorem join_of_isAbsolute (h : isAbsolute gitFolderPath.toList = true) :
    isAbsolute (join [gitFolderPath, filePath]).toList = true ∧
      place (join [gitFolderPath, filePath]) =
        normalize (place gitFolderPath) (components filePath.toList) := by
  have hne : gitFolderPath.toList ≠ [] := by
    intro hnil
    rw [hnil] at h
    cases h
  obtain ⟨first, rest, hcons⟩ := List.exists_cons_of_ne_nil hne
  unfold join place
  rw [String.toList_ofList]
  by_cases hfile : filePath.toList = []
  · have hjoined : List.intercalate ['/'] (([gitFolderPath, filePath].map String.toList).filter
        (· ≠ [])) = gitFolderPath.toList := by
      simp [hne, hfile]
    rw [hjoined, if_neg hne, hfile]
    exact normalizePath_of_isAbsolute h
  · have hjoined : List.intercalate ['/'] (([gitFolderPath, filePath].map String.toList).filter
        (· ≠ [])) = gitFolderPath.toList ++ '/' :: filePath.toList := by
      simp [hne, hfile]
    have habsolute : isAbsolute (gitFolderPath.toList ++ '/' :: filePath.toList) = true := by
      rw [hcons] at h ⊢
      exact h
    rw [hjoined, if_neg (by simp)]
    obtain ⟨hjoin, hplace⟩ := normalizePath_of_isAbsolute habsolute
    rw [components_append_slash, normalize_append] at hplace
    exact ⟨hjoin, hplace⟩

/-! ## Acceptance -/

theorem safeJoinPath_eq_ok {parentPath path : String} {paths : List String} :
    safeJoinPath t parentPath paths = .ok path ↔
      isContainedWithin t parentPath (join (parentPath :: paths)) = true ∧
        join (parentPath :: paths) = path := by
  unfold safeJoinPath
  rw [Fallible.ite_eq_ok]

theorem normalizedPath_eq_ok {path : String} : normalizedPath t gitFolderPath filePath = .ok path ↔
    if isAbsolute filePath.toList then path = filePath
    else path = join [gitFolderPath, filePath] ∧ isContainedWithin t gitFolderPath path = true := by
  unfold normalizedPath
  split_ifs with hfile
  · rw [Except.ok.injEq, eq_comm]
  · rw [safeJoinPath_eq_ok]
    constructor
    · rintro ⟨hjoined, rfl⟩
      exact ⟨rfl, hjoined⟩
    · rintro ⟨rfl, hjoined⟩
      exact ⟨hjoined, rfl⟩

/-- The path is tested as it came, and once it is joined if it is relative. -/
theorem accepted_iff (hgit : isAbsolute gitFolderPath.toList = true) {path : String} :
    normalizeAndValidateSourceControlledFilePath t gitFolderPath filePath = .ok path ↔
      isContainedWithin t gitFolderPath filePath = true ∧
      (if isAbsolute filePath.toList then path = filePath
        else path = join [gitFolderPath, filePath] ∧
          isContainedWithin t gitFolderPath path = true) := by
  unfold normalizeAndValidateSourceControlledFilePath
  rw [if_neg (by simp [hgit]), Fallible.bind_eq_ok, ← normalizedPath_eq_ok]
  simp only [Fallible.ite_eq_ok]
  constructor
  · rintro ⟨_, hpath, hcontained, rfl⟩
    exact ⟨hcontained, hpath⟩
  · rintro ⟨hcontained, hpath⟩
    exact ⟨path, hpath, hcontained, rfl⟩

/-- The place that is accepted, and the places that are tested. -/
theorem accepted_place (hgit : isAbsolute gitFolderPath.toList = true) {path : String}
    (h : normalizeAndValidateSourceControlledFilePath t gitFolderPath filePath = .ok path) :
    isAbsolute path.toList = true ∧ place path = denoted gitFolderPath filePath ∧
      isContainedWithin t gitFolderPath path = true := by
  obtain ⟨hcontained, hpath⟩ := (accepted_iff hgit).1 h
  unfold denoted
  split_ifs at hpath ⊢ with hfile
  · obtain rfl := hpath
    exact ⟨hfile, rfl, hcontained⟩
  · obtain ⟨rfl, hjoined⟩ := hpath
    obtain ⟨habsolute, hplace⟩ := @join_of_isAbsolute gitFolderPath filePath hgit
    exact ⟨habsolute, hplace, hjoined⟩

/-- Where the path is tested, it is in the folder just if the place it denotes is. In the root there
is nothing but itself. -/
def TestedAsDenoted (t : FileTree) (gitFolderPath filePath : String) : Prop :=
  (place gitFolderPath ≠ [] ∧ (place gitFolderPath <+: denoted gitFolderPath filePath →
      place gitFolderPath <+: named t filePath)) ∨
    (place gitFolderPath = [] ∧ denoted gitFolderPath filePath = [] ∧ named t filePath = [])

/-- What is accepted is in the folder. -/
theorem inside_of_accepted (hgit : isAbsolute gitFolderPath.toList = true) {path : String}
    (h : normalizeAndValidateSourceControlledFilePath t gitFolderPath filePath = .ok path) :
    isAbsolute path.toList = true ∧ place gitFolderPath <+: place path := by
  obtain ⟨habsolute, -, hcontained⟩ := accepted_place hgit h
  rw [contained_iff, named_of_isAbsolute hgit, named_of_isAbsolute habsolute] at hcontained
  refine ⟨habsolute, ?_⟩
  rcases hcontained with heq | ⟨-, hprefix⟩
  · exact heq ▸ List.prefix_rfl
  · exact hprefix

theorem exists_accepted_iff (hgit : isAbsolute gitFolderPath.toList = true) :
    (∃ path, normalizeAndValidateSourceControlledFilePath t gitFolderPath filePath = .ok path) ↔
      (place gitFolderPath = denoted gitFolderPath filePath ∨
        (place gitFolderPath ≠ [] ∧ place gitFolderPath <+: denoted gitFolderPath filePath)) ∧
      (place gitFolderPath = named t filePath ∨
        (place gitFolderPath ≠ [] ∧ place gitFolderPath <+: named t filePath)) := by
  constructor
  · rintro ⟨path, h⟩
    obtain ⟨habsolute, hplace, hcontained⟩ := accepted_place hgit h
    have htested := ((accepted_iff hgit).1 h).1
    rw [contained_iff, named_of_isAbsolute hgit] at hcontained htested
    rw [named_of_isAbsolute habsolute, hplace] at hcontained
    exact ⟨hcontained, htested⟩
  · rintro ⟨hdenoted, htested⟩
    rw [← named_of_isAbsolute (t := t) hgit, ← contained_iff] at htested
    unfold denoted at hdenoted
    split_ifs at hdenoted with hfile
    · exact ⟨filePath, (accepted_iff hgit).2 ⟨htested, by rw [if_pos hfile]⟩⟩
    · obtain ⟨habsolute, hplace⟩ := @join_of_isAbsolute gitFolderPath filePath hgit
      refine ⟨join [gitFolderPath, filePath], (accepted_iff hgit).2 ⟨htested, ?_⟩⟩
      rw [if_neg hfile]
      refine ⟨rfl, ?_⟩
      rw [contained_iff, named_of_isAbsolute hgit, named_of_isAbsolute habsolute, hplace]
      exact hdenoted

/-- The paths are validated exactly just where the path is in the folder as it is tested. -/
theorem validatesExactly_iff (t : FileTree) (gitFolderPath filePath : String)
    (hgit : isAbsolute gitFolderPath.toList = true) :
    ValidatesExactly t gitFolderPath filePath ↔ TestedAsDenoted t gitFolderPath filePath := by
  unfold ValidatesExactly TestedAsDenoted
  rw [exists_accepted_iff hgit, and_iff_left fun path h => inside_of_accepted hgit h]
  by_cases hroot : place gitFolderPath = []
  · have hrooted : ∀ location : Location,
        ([] = location ∨ (([] : Location) ≠ [] ∧ ([] : Location) <+: location)) ↔
          location = [] := by
      intro location
      rw [or_iff_left fun h => h.1 rfl, eq_comm]
    rw [hroot, hrooted, hrooted, or_iff_right fun h => h.1 rfl, iff_true_right List.nil_prefix,
      and_iff_right rfl]
  · have hinside : ∀ location : Location, (place gitFolderPath = location ∨
        (place gitFolderPath ≠ [] ∧ place gitFolderPath <+: location)) ↔
          place gitFolderPath <+: location := by
      intro location
      rw [and_iff_right hroot, or_iff_right_of_imp]
      rintro rfl
      exact List.prefix_rfl
    rw [hinside, hinside]
    simp only [hroot, ne_eq, not_false_eq_true, true_and, false_and, or_false]
    exact and_iff_left_iff_imp

/-- There is nothing but the root, and that is where the process is. -/
def rootTree : FileTree where
  entry location := if location = [] then some .directory else none
  root := rfl
  parent location name h := by simp at h
  proper location name h := by simp at h
  cwd := []
  cwd_directory := rfl

theorem validatesExactly_absolute : ValidatesExactly rootTree "/git" "/git/a" := by
  have hgit : "/git".toList = ['/', 'g', 'i', 't'] := by decide
  have hfile : "/git/a".toList = ['/', 'g', 'i', 't', '/', 'a'] := by decide
  refine (validatesExactly_iff rootTree "/git" "/git/a" (by rw [hgit]; rfl)).2 (.inl ?_)
  unfold denoted place named
  rw [hgit, hfile]
  decide

/-- A relative path to a file in the folder is refused. -/
theorem not_validatesExactly_relative : ¬ ValidatesExactly rootTree "/git" "a" := by
  have hgit : "/git".toList = ['/', 'g', 'i', 't'] := by decide
  have hfile : "a".toList = ['a'] := by decide
  intro h
  have haccepted := h.1.2
  rw [exists_accepted_iff (by rw [hgit]; rfl)] at haccepted
  unfold denoted place named at haccepted
  rw [hgit, hfile] at haccepted
  exact absurd haccepted (by decide)

end SourceControlPaths

end N8n
