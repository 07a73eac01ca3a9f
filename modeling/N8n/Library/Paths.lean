import Mathlib.Data.List.Infix

/-!
# Paths as text

A path is a text whose components are between slashes.  A location is a list of proper names, from
the root; it is written with a slash before each of them.  `normalize` is what the components of a
path say without a look at a file system: `..` goes up, and empty components and `.` say nothing.

`within_iff` says that a location is written within another exactly when it lies within it, the
root apart, which has no text before its slash.
-/

namespace Paths

abbrev Name := List Char

abbrev Location := List Name

/-- A name that a directory can have: no component with a meaning of its own. -/
def Proper (name : Name) : Prop := name ≠ [] ∧ name ≠ ['.'] ∧ name ≠ ['.', '.'] ∧ '/' ∉ name

def components (path : List Char) : List Name := path.splitOn '/'

def isAbsolute (path : List Char) : Bool := path.head? = some '/'

def text (location : Location) : List Char := '/' :: List.intercalate ['/'] location

def normalize : Location → List Name → Location
  | location, [] => location
  | location, name :: names =>
    if name = [] ∨ name = ['.'] then normalize location names
    else if name = ['.', '.'] then normalize location.dropLast names
    else normalize (location ++ [name]) names

/-- The texts are the same, or the first continues with a slash in the second. -/
def within (parent child : List Char) : Bool :=
  parent = child || (parent ++ ['/']).isPrefixOf child

/-! ## Components -/

theorem slash_not_mem_components : ∀ {path : List Char} {name : Name}, name ∈ components path →
    '/' ∉ name
  | [], name, h => by
    rw [components, List.splitOn_nil, List.mem_singleton] at h
    exact h ▸ List.not_mem_nil
  | c :: path, name, h => by
    have ih := @slash_not_mem_components path
    obtain ⟨first, rest, hcons⟩ := List.exists_cons_of_ne_nil (List.splitOn_ne_nil '/' path)
    unfold components at h ih
    rw [List.splitOn_cons_eq_if_modifyHead, hcons] at h
    rw [hcons] at ih
    split_ifs at h with hc
    · rcases List.mem_cons.1 h with rfl | h
      · exact List.not_mem_nil
      · exact ih h
    · rcases List.mem_cons.1 h with rfl | h
      · rw [List.mem_cons, not_or]
        exact ⟨fun heq => hc (by simp [← heq]), ih List.mem_cons_self⟩
      · exact ih (List.mem_cons_of_mem _ h)

theorem Proper.of_name {name : Name} (hslash : '/' ∉ name) (hskip : ¬ (name = [] ∨ name = ['.']))
    (hup : name ≠ ['.', '.']) : Proper name :=
  ⟨fun h => hskip (.inl h), fun h => hskip (.inr h), hup, hslash⟩

theorem normalize_proper : ∀ {names : List Name} {location : Location},
    (∀ name ∈ location, Proper name) → (∀ name ∈ names, '/' ∉ name) →
      ∀ name ∈ normalize location names, Proper name
  | [], _, hlocation, _ => hlocation
  | name :: names, location, hlocation, hnames => by
    have hrest := fun n hn => hnames n (List.mem_cons_of_mem _ hn)
    unfold normalize
    split_ifs with hskip hup
    · exact normalize_proper hlocation hrest
    · exact normalize_proper (fun n hn => hlocation n (List.mem_of_mem_dropLast hn)) hrest
    · refine normalize_proper (fun n hn => ?_) hrest
      rcases List.mem_append.1 hn with hn | hn
      · exact hlocation n hn
      · exact List.mem_singleton.1 hn ▸ .of_name (hnames name List.mem_cons_self) hskip hup

theorem normalize_of_proper : ∀ {names : List Name} {location : Location},
    (∀ name ∈ names, Proper name) → normalize location names = location ++ names
  | [], _, _ => (List.append_nil _).symm
  | name :: names, location, hnames => by
    obtain ⟨hempty, hdot, hup, -⟩ := hnames name List.mem_cons_self
    unfold normalize
    rw [if_neg (by simp [hempty, hdot]), if_neg hup,
      normalize_of_proper fun n hn => hnames n (List.mem_cons_of_mem _ hn), List.append_assoc]
    rfl

theorem normalize_append : ∀ {names : List Name} {location : Location} (others : List Name),
    normalize location (names ++ others) = normalize (normalize location names) others
  | [], _, _ => rfl
  | name :: names, location, others => by
    rw [List.cons_append]
    conv_lhs => unfold normalize
    conv_rhs => arg 1; unfold normalize
    split_ifs <;> exact normalize_append others

theorem components_append_slash (path rest : List Char) :
    components (path ++ '/' :: rest) = components path ++ components rest :=
  List.splitOn_append_cons_self path rest

/-! ## Texts of locations -/

theorem intercalate_append : ∀ {names others : List Name}, names ≠ [] → others ≠ [] →
    List.intercalate ['/'] (names ++ others) =
      List.intercalate ['/'] names ++ '/' :: List.intercalate ['/'] others
  | [name], others, _, hothers => by
    rw [List.singleton_append, List.intercalate_cons_of_ne_nil hothers, List.intercalate_singleton]
    simp
  | name :: other :: names, others, _, hothers => by
    have ih := @intercalate_append (other :: names) others (List.cons_ne_nil _ _) hothers
    rw [List.cons_append, List.intercalate_cons_of_ne_nil (by simp), ih,
      List.intercalate_cons_of_ne_nil (List.cons_ne_nil _ _)]
    simp

theorem intercalate_injective {names others : List Name} (hne : names ≠ []) (hne' : others ≠ [])
    (hnames : ∀ name ∈ names, '/' ∉ name) (hothers : ∀ name ∈ others, '/' ∉ name)
    (heq : List.intercalate ['/'] names = List.intercalate ['/'] others) : names = others := by
  rw [← List.splitOn_intercalate '/' hnames hne, heq, List.splitOn_intercalate '/' hothers hne']

theorem components_text {location : Location} (h : ∀ name ∈ location, Proper name) :
    normalize [] (components (text location)) = location := by
  have hsplit : components (text location) =
      [] :: (List.intercalate ['/'] location).splitOn '/' := by
    unfold components text
    rw [List.splitOn_cons_eq_if_modifyHead, if_pos (by simp)]
  have hskip : normalize [] (components (text location)) =
      normalize [] ((List.intercalate ['/'] location).splitOn '/') := by
    rw [hsplit]
    conv_lhs => unfold normalize
    rw [if_pos (.inl rfl)]
  rw [hskip]
  rcases location with _ | ⟨name, names⟩
  · rfl
  · rw [List.splitOn_intercalate '/' (fun n hn => (h n hn).2.2.2) (List.cons_ne_nil _ _),
      normalize_of_proper h, List.nil_append]

theorem text_injective {location other : Location} (h : ∀ name ∈ location, Proper name)
    (h' : ∀ name ∈ other, Proper name) (heq : text location = text other) : location = other := by
  rw [← components_text h, heq, components_text h']

/-- Texts that are within one another are those of locations that are. -/
theorem within_iff {location other : Location} (h : ∀ name ∈ location, Proper name)
    (h' : ∀ name ∈ other, Proper name) :
    within (text location) (text other) = true ↔
      location = other ∨ (location ≠ [] ∧ location <+: other) := by
  unfold within
  rw [Bool.or_eq_true, decide_eq_true_eq, List.isPrefixOf_iff_prefix]
  constructor
  · rintro (heq | ⟨rest, hrest⟩)
    · exact .inl (text_injective h h' heq)
    · have hcons : List.intercalate ['/'] location ++ '/' :: rest =
          List.intercalate ['/'] other := by
        simpa [text] using hrest
      have hslash : ∀ {names : Location}, (∀ name ∈ names, Proper name) →
          ∀ name ∈ names, '/' ∉ name := fun hnames name hname => (hnames name hname).2.2.2
      have hother : other ≠ [] := by
        rintro rfl
        simp at hcons
      have hne : location ≠ [] := by
        rintro rfl
        obtain ⟨name, names, rfl⟩ := List.exists_cons_of_ne_nil hother
        obtain ⟨c, cs, rfl⟩ := List.exists_cons_of_ne_nil (h' name List.mem_cons_self).1
        have hc : '/' = c := by
          rcases names with _ | ⟨other, names⟩ <;>
            simp only [List.intercalate_singleton, List.intercalate_cons_cons, List.intercalate_nil,
              List.nil_append, List.cons_append, List.cons.injEq] at hcons <;>
            exact hcons.1
        exact (h' _ List.mem_cons_self).2.2.2 (hc ▸ List.mem_cons_self)
      refine .inr ⟨hne, rest.splitOn '/', ?_⟩
      refine intercalate_injective (by simp [hne]) hother (fun name hname => ?_) (hslash h') ?_
      · rcases List.mem_append.1 hname with hname | hname
        · exact hslash h name hname
        · exact slash_not_mem_components hname
      · rw [intercalate_append hne (List.splitOn_ne_nil '/' rest), List.intercalate_splitOn, hcons]
  · rintro (rfl | ⟨hne, rest, rfl⟩)
    · exact .inl rfl
    · rcases rest with _ | ⟨name, names⟩
      · exact .inl (by rw [List.append_nil])
      · refine .inr ⟨List.intercalate ['/'] (name :: names), ?_⟩
        unfold text
        rw [intercalate_append hne (List.cons_ne_nil _ _)]
        simp

end Paths
