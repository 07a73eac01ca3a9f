import N8n.Library.Paths

/-!
# Trees of files with symbolic links

The walk of a path follows a link wherever it meets one, with the path that the link holds in place
of its name, and may follow so many links.  It ends at an entry, at a place in a directory where
there is none, or with an error.

`walk_direct` says that a walk that meets no link ends, if it does, at the place its components name.
-/

open Paths

/-- What stands in a place of the tree. -/
inductive Entry
  | directory
  | file
  | link (target : List Char)
  deriving DecidableEq, Repr

/-- A tree of entries under a root, and the directory that a process is in. -/
structure FileTree where
  entry : Location → Option Entry
  root : entry [] = some .directory
  parent : ∀ location name, entry (location ++ [name]) ≠ none → entry location = some .directory
  proper : ∀ location name, entry (location ++ [name]) ≠ none → Proper name
  cwd : Location
  cwd_directory : entry cwd = some .directory

namespace FileTree

inductive WalkError
  | noEntry | notDirectory | tooManyLinks
  deriving DecidableEq, Repr

inductive Walked
  | found (location : Location)
  /-- There is nothing of the last name in its directory. -/
  | missing (location : Location)
  | error (error : WalkError)
  deriving DecidableEq, Repr

variable (t : FileTree)

/-- Where a path starts. -/
def start (path : List Char) : Location := if isAbsolute path then [] else t.cwd

/-- A walk that leaves the rest to `follow` when it meets a link. -/
def walkWith (follow : Location → List Name → Walked) : Location → List Name → Walked
  | location, [] => .found location
  | location, name :: names =>
    if name = [] ∨ name = ['.'] then walkWith follow location names
    else if name = ['.', '.'] then walkWith follow location.dropLast names
    else
      match t.entry (location ++ [name]) with
      | none => if names = [] then .missing (location ++ [name]) else .error .noEntry
      | some .directory => walkWith follow (location ++ [name]) names
      | some .file => if names = [] then .found (location ++ [name]) else .error .notDirectory
      | some (.link target) =>
        if target = [] then .error .noEntry
        else
          follow (if isAbsolute target then [] else location) (components target ++ names)

/-- A walk that may follow so many links. -/
def walkFrom : ℕ → Location → List Name → Walked
  | 0 => t.walkWith fun _ _ => .error .tooManyLinks
  | links + 1 => t.walkWith (walkFrom links)

def walk (links : ℕ) (path : List Char) : Walked :=
  if path = [] then .error .noEntry else t.walkFrom links (t.start path) (components path)

/-- The place where a walk ends. -/
def Walked.location : Walked → Option Location
  | .found location | .missing location => some location
  | .error _ => none

/-- The walk of these components meets no link. -/
def Direct : Location → List Name → Prop
  | _, [] => True
  | location, name :: names =>
    if name = [] ∨ name = ['.'] then Direct location names
    else if name = ['.', '.'] then Direct location.dropLast names
    else
      match t.entry (location ++ [name]) with
      | some (.link _) => False
      | some .directory => Direct (location ++ [name]) names
      | _ => True

variable {t}

/-! ## Names -/

theorem proper_cwd : ∀ name ∈ t.cwd, Proper name := by
  have hprefix : ∀ {location : Location}, t.entry location = some .directory →
      ∀ name ∈ location, Proper name := by
    intro location
    induction location using List.reverseRecOn with
    | nil => exact fun _ name h => absurd h List.not_mem_nil
    | append_singleton location last ih =>
      intro hentry name hname
      have hsome : t.entry (location ++ [last]) ≠ none := by
        rw [hentry]
        exact Option.some_ne_none _
      rcases List.mem_append.1 hname with hname | hname
      · exact ih (t.parent _ _ hsome) name hname
      · exact List.mem_singleton.1 hname ▸ t.proper _ _ hsome
  exact hprefix t.cwd_directory

theorem proper_start (path : List Char) : ∀ name ∈ t.start path, Proper name := by
  unfold start
  split_ifs
  · exact fun name h => absurd h List.not_mem_nil
  · exact proper_cwd

/-- One more name is proper. -/
theorem proper_append {location : Location} {name : Name} {names : List Name}
    (hlocation : ∀ n ∈ location, Proper n) (hnames : ∀ n ∈ name :: names, '/' ∉ n)
    (hskip : ¬ (name = [] ∨ name = ['.'])) (hup : name ≠ ['.', '.']) :
    ∀ n ∈ location ++ [name], Proper n := by
  intro n hn
  rcases List.mem_append.1 hn with hn | hn
  · exact hlocation n hn
  · exact List.mem_singleton.1 hn ▸ .of_name (hnames name List.mem_cons_self) hskip hup

/-- A result is at proper names, if it is at a place. -/
def Walked.Proper (walked : Walked) : Prop :=
  ∀ location, walked.location = some location → ∀ name ∈ location, Paths.Proper name

theorem walkWith_proper {follow : Location → List Name → Walked}
    (hfollow : ∀ location names, (∀ n ∈ location, Proper n) → (∀ n ∈ names, '/' ∉ n) →
      (follow location names).Proper) : ∀ {names : List Name} {location : Location},
    (∀ n ∈ location, Proper n) → (∀ n ∈ names, '/' ∉ n) →
      (t.walkWith follow location names).Proper
  | [], location, hlocation, _ => by
    intro place hplace
    exact Option.some.inj hplace ▸ hlocation
  | name :: names, location, hlocation, hnames => by
    have hrest : ∀ n ∈ names, '/' ∉ n := fun n hn => hnames n (List.mem_cons_of_mem _ hn)
    by_cases hskip : name = [] ∨ name = ['.']
    · rw [walkWith, if_pos hskip]
      exact walkWith_proper hfollow hlocation hrest
    by_cases hup : name = ['.', '.']
    · rw [walkWith, if_neg hskip, if_pos hup]
      exact walkWith_proper hfollow (fun n hn => hlocation n (List.mem_of_mem_dropLast hn)) hrest
    rw [walkWith, if_neg hskip, if_neg hup]
    have hnext := proper_append hlocation hnames hskip hup
    split
    · split_ifs
      · exact fun place hplace => Option.some.inj hplace ▸ hnext
      · exact fun place hplace => by cases hplace
    · exact walkWith_proper hfollow hnext hrest
    · split_ifs
      · exact fun place hplace => Option.some.inj hplace ▸ hnext
      · exact fun place hplace => by cases hplace
    · rename_i target _
      have htarget : ∀ n ∈ components target ++ names, '/' ∉ n := by
        intro n hn
        rcases List.mem_append.1 hn with hn | hn
        · exact slash_not_mem_components hn
        · exact hrest n hn
      split_ifs
      · exact fun place hplace => by cases hplace
      · exact hfollow _ _ (fun n hn => absurd hn List.not_mem_nil) htarget
      · exact hfollow _ _ hlocation htarget

theorem walkFrom_proper : ∀ (links : ℕ) (location : Location) (names : List Name),
    (∀ n ∈ location, Proper n) → (∀ n ∈ names, '/' ∉ n) →
      (t.walkFrom links location names).Proper
  | 0, _, _, hlocation, hnames =>
    walkWith_proper (fun _ _ _ _ place hplace => by cases hplace) hlocation hnames
  | links + 1, _, _, hlocation, hnames => walkWith_proper (walkFrom_proper links) hlocation hnames

theorem walk_proper (links : ℕ) (path : List Char) : (t.walk links path).Proper := by
  unfold walk
  split_ifs
  · exact fun place hplace => by cases hplace
  · exact walkFrom_proper links _ _ (proper_start path) fun _ => slash_not_mem_components

/-! ## Walks that meet no link -/

theorem walkWith_direct {follow : Location → List Name → Walked} {place : Location} :
    ∀ {names : List Name} {location : Location}, t.Direct location names →
      (t.walkWith follow location names).location = some place →
        place = normalize location names
  | [], location, _, hplace => (Option.some.inj hplace).symm
  | name :: names, location, hdirect, hplace => by
    by_cases hskip : name = [] ∨ name = ['.']
    · rw [Direct, if_pos hskip] at hdirect
      rw [walkWith, if_pos hskip] at hplace
      rw [Paths.normalize, if_pos hskip]
      exact walkWith_direct hdirect hplace
    by_cases hup : name = ['.', '.']
    · rw [Direct, if_neg hskip, if_pos hup] at hdirect
      rw [walkWith, if_neg hskip, if_pos hup] at hplace
      rw [Paths.normalize, if_neg hskip, if_pos hup]
      exact walkWith_direct hdirect hplace
    rw [Direct, if_neg hskip, if_neg hup] at hdirect
    rw [walkWith, if_neg hskip, if_neg hup] at hplace
    rw [Paths.normalize, if_neg hskip, if_neg hup]
    cases hentry : t.entry (location ++ [name]) with
    | none =>
      rw [hentry] at hplace
      dsimp only at hplace
      split_ifs at hplace with hlast
      · rw [hlast, Paths.normalize]
        exact (Option.some.inj hplace).symm
      · cases hplace
    | some entry =>
      rw [hentry] at hplace hdirect
      cases entry with
      | directory => exact walkWith_direct hdirect hplace
      | file =>
        dsimp only at hplace
        split_ifs at hplace with hlast
        · rw [hlast, Paths.normalize]
          exact (Option.some.inj hplace).symm
        · cases hplace
      | link target => exact hdirect.elim

theorem walk_direct {links : ℕ} {path : List Char} {place : Location}
    (hdirect : t.Direct (t.start path) (components path))
    (hplace : (t.walk links path).location = some place) :
    place = normalize (t.start path) (components path) := by
  unfold walk at hplace
  split_ifs at hplace with hempty
  · cases hplace
  · cases links with
    | zero => exact walkWith_direct hdirect hplace
    | succ links => exact walkWith_direct hdirect hplace

end FileTree
