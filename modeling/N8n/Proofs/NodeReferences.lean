import Mathlib.Data.List.Forall2
import N8n.NodeReferences

/-!
# Where references are renamed

A pattern is a name between two groups, and its replacement keeps the groups. If the patterns match
at the references only, these are replaced one by one, each in its place.
-/

namespace N8n

open Replacement

/-! ## Escapes -/

theorem literal_cons_of_mem {char : ℕ} (h : char ∈ backslashEscapableChars) (source : CodeUnits) :
    literal (backslash :: char :: source) = (literal source).map (char :: ·) := by
  rw [literal, if_pos rfl, if_pos h]

theorem literal_cons_of_not_mem {char : ℕ} (h : char ∉ backslashEscapableChars) :
    ∀ source : CodeUnits, literal (char :: source) = (literal source).map (char :: ·)
  | [] => by simp [literal, h]
  | next :: source => by
    have hne : char ≠ backslash := by
      rintro rfl
      exact h (by decide)
    rw [literal, if_neg hne, if_neg h]

/-- An escaped name matches the name. -/
theorem literal_backslashEscape : ∀ nodeName : CodeUnits,
    literal (backslashEscape nodeName) = some nodeName
  | [] => rfl
  | char :: nodeName => by
    have ih := literal_backslashEscape nodeName
    rw [backslashEscape, List.flatMap_cons, ← backslashEscape]
    by_cases hchar : char ∈ backslashEscapableChars
    · rw [if_pos hchar, List.cons_append, List.singleton_append, literal_cons_of_mem hchar, ih]
      rfl
    · rw [if_neg hchar, List.singleton_append, literal_cons_of_not_mem hchar, ih]
      rfl

theorem expand_cons_of_ne {groups : List CodeUnits} {char : ℕ} (h : char ≠ dollar) :
    ∀ replacement : CodeUnits,
      expand groups (char :: replacement) = char :: expand groups replacement
  | [] => by rw [expand, expand]
  | next :: replacement => by rw [expand, if_pos h]

/-- An escaped name stands for the name. -/
theorem expand_dollarEscape (groups : List CodeUnits) (replacement : CodeUnits) :
    ∀ nodeName : CodeUnits, expand groups (dollarEscape nodeName ++ replacement) =
      nodeName ++ expand groups replacement
  | [] => rfl
  | char :: nodeName => by
    have ih := expand_dollarEscape groups replacement nodeName
    rw [dollarEscape, List.flatMap_cons, List.append_assoc, ← dollarEscape]
    by_cases hchar : char = dollar
    · subst hchar
      rw [if_pos rfl, List.cons_append, List.cons_append, List.nil_append, expand,
        if_neg (not_not.2 rfl), if_pos rfl, ih]
      rfl
    · rw [if_neg hchar, List.singleton_append, expand_cons_of_ne hchar, ih]
      rfl

/-- A group of one digit stands for its text, also with a digit behind it. -/
theorem expand_group {groups : List CodeUnits} {number : ℕ} (hnumber : number < 10)
    {group : CodeUnits} (hgroup : groupAt groups number = some group) (hfew : groups.length < 10)
    (hpos : 0 < number) (replacement : CodeUnits) :
    expand groups (dollar :: (0x30 + number) :: replacement) =
      group ++ expand groups replacement := by
  have hdigit : isDigit (0x30 + number) = true := by
    simp only [isDigit, decide_eq_true_eq]
    omega
  have hne : 0x30 + number ≠ dollar := by
    unfold dollar
    omega
  have hsub : 0x30 + number - 0x30 = number := by omega
  rw [expand.eq_3, if_neg (not_not.2 rfl), if_neg hne, if_pos hdigit]
  dsimp only
  rw [hsub, hgroup, Option.getD_some]
  cases replacement with
  | nil => rw [expand, List.append_nil]
  | cons third rest =>
    have hnone : groupAt groups
        (if isDigit third then 10 * number + (third - 0x30) else 0) = none := by
      split_ifs
      · obtain ⟨n, hn⟩ : ∃ n, 10 * number + (third - 0x30) = n + 1 :=
          ⟨10 * number + (third - 0x30) - 1, by omega⟩
        rw [hn]
        exact List.getElem?_eq_none (by omega)
      · rfl
    dsimp only
    rw [hnone]

/-- The replacement of a pattern: the name between the two groups. -/
theorem expand_template (before after nodeName : CodeUnits) :
    expand [before, after] (units "$1" ++ dollarEscape nodeName ++ units "$2") =
      before ++ nodeName ++ after := by
  have hone : units "$1" = [dollar, 0x30 + 1] := by decide
  have htwo : units "$2" = [dollar, 0x30 + 2] := by decide
  rw [hone, htwo, List.append_assoc, List.cons_append, List.cons_append, List.nil_append,
    expand_group (by decide) rfl (by simp) (by decide), expand_dollarEscape,
    expand_group (by decide) rfl (by simp) (by decide), expand, List.append_nil,
    List.append_assoc]

/-- The replacement of the callback: the name in brackets, and what comes behind it. -/
theorem expand_bracket (after nodeName : CodeUnits) :
    expand [after] (units "[\"" ++ dollarEscape nodeName ++ units "\"]$1") =
      units "[\"" ++ nodeName ++ units "\"]" ++ after := by
  have hopen : units "[\"" = [0x5b, 0x22] := by decide
  have hclose : units "\"]$1" = [0x22, 0x5d, dollar, 0x30 + 1] := by decide
  have hclose' : units "\"]" = [0x22, 0x5d] := by decide
  rw [hopen, hclose, hclose', List.append_assoc, List.cons_append, List.cons_append,
    List.nil_append, expand_cons_of_ne (by decide), expand_cons_of_ne (by decide), expand_dollarEscape,
    expand_cons_of_ne (by decide), expand_cons_of_ne (by decide),
    expand_group (by decide) rfl (by simp) (by decide), expand, List.append_nil]
  simp only [List.cons_append, List.nil_append, List.append_assoc]

/-! ## Matches -/

namespace AccessPattern

variable (pattern : AccessPattern) (previousName newName : CodeUnits)

/-- What a pattern finds at the start of a text, and what replaces it. -/
theorem matchAt_eq (text : CodeUnits) :
    pattern.matchAt (backslashEscape previousName)
        (units "$1" ++ dollarEscape newName ++ units "$2") text =
      pattern.groups.findSome? fun group =>
        if (group.1 ++ previousName ++ group.2).isPrefixOf text then
          some ((group.1 ++ previousName ++ group.2).length, group.1 ++ newName ++ group.2)
        else none := by
  rw [matchAt, literal_backslashEscape]
  simp only [expand_template]
  rfl

variable {pattern previousName}

theorem matchAt_eq_none {text : CodeUnits} (h : ¬ pattern.Matches previousName text) :
    pattern.matchAt (backslashEscape previousName)
      (units "$1" ++ dollarEscape newName ++ units "$2") text = none := by
  rw [matchAt_eq, List.findSome?_eq_none_iff]
  intro group hgroup
  rw [if_neg]
  rw [List.isPrefixOf_iff_prefix]
  exact fun hstart => h ⟨group, hgroup, hstart⟩

/-- If the groups are of one length, only one of them fits. -/
theorem matchAt_of_group {group : CodeUnits × CodeUnits} (hgroup : group ∈ pattern.groups)
    (hlength : ∀ group' ∈ pattern.groups, group'.1.length = group.1.length ∧
      group'.2.length = group.2.length) (later : CodeUnits) :
    pattern.matchAt (backslashEscape previousName)
        (units "$1" ++ dollarEscape newName ++ units "$2")
        (group.1 ++ previousName ++ group.2 ++ later) =
      some ((group.1 ++ previousName ++ group.2).length, group.1 ++ newName ++ group.2) := by
  rw [matchAt_eq]
  have hsome : (pattern.groups.findSome? fun group' =>
      if (group'.1 ++ previousName ++ group'.2).isPrefixOf
          (group.1 ++ previousName ++ group.2 ++ later) then
        some ((group'.1 ++ previousName ++ group'.2).length, group'.1 ++ newName ++ group'.2)
      else none).isSome := by
    rw [List.findSome?_isSome_iff]
    refine ⟨group, hgroup, ?_⟩
    rw [if_pos (List.isPrefixOf_iff_prefix.2 (List.prefix_append _ _))]
    rfl
  obtain ⟨found, hfound⟩ := Option.isSome_iff_exists.1 hsome
  obtain ⟨group', hgroup', hmatch⟩ := List.exists_of_findSome?_eq_some hfound
  rw [Option.ite_none_right_eq_some, List.isPrefixOf_iff_prefix] at hmatch
  obtain ⟨hstart, hmatch⟩ := hmatch
  obtain ⟨hbefore, hafter⟩ := hlength group' hgroup'
  have hsame : group'.1 ++ previousName ++ group'.2 = group.1 ++ previousName ++ group.2 := by
    refine (List.prefix_of_prefix_length_le hstart (List.prefix_append _ _) ?_).eq_of_length ?_
    · simp only [List.length_append]
      omega
    · simp only [List.length_append]
      omega
  obtain ⟨hsame, hlast⟩ := List.append_inj' hsame hafter
  obtain ⟨hfirst, -⟩ := List.append_inj hsame hbefore
  rw [hfound, ← hmatch, hfirst, hlast]

end AccessPattern

/-! ## Segments -/

theorem AccessForm.length_text_pos (nodeName : CodeUnits) (form : AccessForm) :
    0 < (form.text nodeName).length := by
  cases form <;> simp [text, units]

theorem flatMap_segments (continuesName : ℕ → Bool) (nodeName : CodeUnits) :
    ∀ (skip : ℕ) (expression : CodeUnits),
      (segments continuesName nodeName skip expression).flatMap
        (Segment.written fun form => form.text nodeName) = expression.drop skip
  | skip, [] => by
    cases skip <;> rfl
  | skip + 1, _ :: expression => flatMap_segments continuesName nodeName skip expression
  | 0, unit :: expression => by
    rw [segments]
    cases hform : AccessForm.all.find? fun form =>
        ReferenceAt continuesName nodeName (unit :: expression) form with
    | none =>
      dsimp only
      rw [List.flatMap_cons, flatMap_segments continuesName nodeName 0 expression]
      rfl
    | some form =>
      have hreference : ReferenceAt continuesName nodeName (unit :: expression) form := by
        simpa using List.find?_some hform
      obtain ⟨later, hlater⟩ := hreference.1
      dsimp only
      rw [List.flatMap_cons, flatMap_segments continuesName nodeName _ expression]
      obtain ⟨length, hlength⟩ := Nat.exists_eq_add_of_lt (form.length_text_pos nodeName)
      have hdrop : expression.drop ((form.text nodeName).length - 1) = later := by
        have hleft : (form.text nodeName ++ later).drop (form.text nodeName).length = later :=
          List.drop_left
        rw [hlater, hlength] at hleft
        rw [hlength]
        exact hleft
      rw [hdrop]
      exact hlater

theorem mem_all_of_mem_segments {continuesName : ℕ → Bool} {nodeName : CodeUnits}
    {form : AccessForm} :
    ∀ {skip : ℕ} {expression : CodeUnits},
      .reference form ∈ segments continuesName nodeName skip expression → form ∈ AccessForm.all
  | skip, [], h => by
    cases skip <;> cases h
  | skip + 1, _ :: expression, h =>
    have h : .reference form ∈ segments continuesName nodeName skip expression := h
    mem_all_of_mem_segments h
  | 0, unit :: expression, h => by
    rw [segments] at h
    cases hform : AccessForm.all.find? fun form =>
        ReferenceAt continuesName nodeName (unit :: expression) form with
    | none =>
      rw [hform] at h
      rcases List.mem_cons.1 h with h | h
      · cases h
      · exact mem_all_of_mem_segments h
    | some first =>
      rw [hform] at h
      rcases List.mem_cons.1 h with h | h
      · obtain rfl := Segment.reference.inj h
        exact List.mem_of_find?_eq_some hform
      · exact mem_all_of_mem_segments h

/-! ## The groups of a form -/

namespace AccessForm

/-- What stands before and after the name. -/
def group : AccessForm → CodeUnits × CodeUnits
  | call quote => (units "$(" ++ [quote], [quote] ++ units ")")
  | node quote => (units "$node[" ++ [quote], [quote] ++ units "]")
  | dot => (units "$node.", [])
  | items quote close => (units "$items(" ++ [quote], [quote, close])

theorem text_eq (nodeName : CodeUnits) (form : AccessForm) :
    form.text nodeName = form.group.1 ++ nodeName ++ form.group.2 := by
  cases form <;> simp [text, group]

theorem group_mem : ∀ form ∈ all, form.group ∈ form.kind.pattern.groups ∨ form = dot := by
  decide

theorem length_group : ∀ form ∈ all, form ≠ dot → ∀ group' ∈ form.kind.pattern.groups,
    group'.1.length = form.group.1.length ∧ group'.2.length = form.group.2.length := by
  decide

theorem checkPattern_prefix : ∀ form ∈ all, form.kind.pattern.checkPattern <+: form.group.1 := by
  decide

end AccessForm

/-! ## One pattern -/

/-- References of one more kind have the new name. -/
def renameKind (newName : CodeUnits) (reference : AccessForm → CodeUnits) (kind : AccessKind)
    (form : AccessForm) : CodeUnits :=
  if form.kind = kind then form.text newName else reference form

/-- The text of every reference starts with a dollar sign. -/
def StartsWithDollar (reference : AccessForm → CodeUnits) : Prop :=
  ∀ form, ∃ later, reference form = dollar :: later

section OnePattern

variable {previousName newName : CodeUnits} {reference : AccessForm → CodeUnits}

theorem head_flatMap_written (hdollar : StartsWithDollar reference) {unit : ℕ}
    (hne : unit ≠ dollar) :
    ∀ {pieces : List Segment} {later : CodeUnits},
      pieces.flatMap (Segment.written reference) = unit :: later →
        ∃ pieces', pieces = .unit unit :: pieces' ∧
          pieces'.flatMap (Segment.written reference) = later
  | [], _, h => by cases h
  | .unit unit' :: pieces, later, h => by
    obtain ⟨rfl, rfl⟩ := List.cons.inj h
    exact ⟨pieces, rfl, rfl⟩
  | .reference form :: pieces, later, h => by
    obtain ⟨rest, hrest⟩ := hdollar form
    rw [List.flatMap_cons, Segment.written, hrest, List.cons_append] at h
    exact absurd (List.cons.inj h).1.symm hne

/-- With a dot behind it a reference by dot is matched together with the dot. -/
theorem matchAt_dot (previousName newName later : CodeUnits) :
    AccessPattern.dot.matchAt (backslashEscape previousName)
        (units "$1" ++ dollarEscape newName ++ units "$2")
        (AccessForm.dot.text previousName ++ later) =
      if units "." <+: later then
        some ((AccessForm.dot.text previousName ++ units ".").length,
          AccessForm.dot.text newName ++ units ".")
      else some ((AccessForm.dot.text previousName).length, AccessForm.dot.text newName) := by
  rw [AccessPattern.matchAt_eq]
  have hgroups : AccessPattern.dot.groups =
      [(units "$node.", units "."), (units "$node.", [])] := rfl
  have hstart (after : CodeUnits) : (units "$node." ++ previousName ++ after).isPrefixOf
      (AccessForm.dot.text previousName ++ later) = true ↔ after <+: later := by
    rw [List.isPrefixOf_iff_prefix, AccessForm.text, List.prefix_append_right_inj]
  rw [hgroups, List.findSome?_cons, List.findSome?_cons, List.findSome?_nil]
  dsimp only
  by_cases hdot : units "." <+: later
  · rw [if_pos ((hstart _).2 hdot), if_pos hdot]
    rfl
  · rw [if_neg fun h => hdot ((hstart _).1 h), if_neg hdot,
      if_pos ((hstart []).2 List.nil_prefix)]
    simp [AccessForm.text]

theorem matchAt_form {form : AccessForm} (hform : form ∈ AccessForm.all) (hdot : form ≠ .dot)
    (newName later : CodeUnits) :
    form.kind.pattern.matchAt (backslashEscape previousName)
        (units "$1" ++ dollarEscape newName ++ units "$2") (form.text previousName ++ later) =
      some ((form.text previousName).length, form.text newName) := by
  rw [form.text_eq, form.text_eq]
  exact AccessPattern.matchAt_of_group newName
    ((AccessForm.group_mem form hform).resolve_right hdot)
    (AccessForm.length_group form hform hdot) later

/-- No reference of the kind starts in the segment. -/
theorem noMatch_of_startsAt {kind : AccessKind} {segment : Segment} {later : CodeUnits}
    (hmatches : ∀ k < (segment.written reference).length,
      kind.pattern.Matches previousName ((segment.written reference).drop k ++ later) →
        segment.startsAt kind k)
    (hno : ∀ k, segment.startsAt kind k = false) :
    NoMatch (kind.pattern.matchAt (backslashEscape previousName)
      (units "$1" ++ dollarEscape newName ++ units "$2")) (segment.written reference) later := by
  intro k hk
  refine AccessPattern.matchAt_eq_none newName fun hmatch => ?_
  have hstarts := hmatches k hk hmatch
  rw [hno k] at hstarts
  cases hstarts

/-- A pattern that matches references only replaces them one by one. -/
theorem replaces_kind {kind : AccessKind} (hdollar : StartsWithDollar reference)
    (hold : ∀ form, form.kind = kind → reference form = form.text previousName) :
    ∀ {pieces : List Segment}, (∀ form, .reference form ∈ pieces → form ∈ AccessForm.all) →
      MatchesOnly (kind.pattern.Matches previousName) reference (Segment.startsAt kind) pieces →
      Replaces (kind.pattern.matchAt (backslashEscape previousName)
          (units "$1" ++ dollarEscape newName ++ units "$2"))
        (Segment.written reference) (Segment.written (renameKind newName reference kind)) pieces
  | [], _, _ => .nil
  | .unit unit :: pieces, hall, ⟨hmatches, hlater⟩ =>
    .keep rfl (noMatch_of_startsAt hmatches fun _ => rfl)
      (replaces_kind hdollar hold (fun form h => hall form (List.mem_cons_of_mem _ h)) hlater)
  | .reference form :: pieces, hall, ⟨hmatches, hlater⟩ => by
    have hall' (form : AccessForm) (h : .reference form ∈ pieces) : form ∈ AccessForm.all :=
      hall form (List.mem_cons_of_mem _ h)
    by_cases hkind : form.kind = kind
    · subst hkind
      have hform : form ∈ AccessForm.all := hall form List.mem_cons_self
      have hwritten : (Segment.reference form).written reference = [] ++ form.text previousName :=
        hold form rfl
      have hnew : (Segment.reference form).written (renameKind newName reference form.kind) =
          [] ++ form.text newName := if_pos rfl
      have hne : form.text previousName ≠ [] := List.ne_nil_of_length_pos (form.length_text_pos _)
      have hempty (later : CodeUnits) :
          NoMatch (form.kind.pattern.matchAt (backslashEscape previousName)
            (units "$1" ++ dollarEscape newName ++ units "$2")) [] later :=
        fun k hk => absurd hk (Nat.not_lt_zero k)
      by_cases hdot : form = .dot
      · subst hdot
        have hmatch := matchAt_dot previousName newName
          (pieces.flatMap (Segment.written reference))
        by_cases hnext : units "." <+: pieces.flatMap (Segment.written reference)
        · rw [if_pos hnext] at hmatch
          obtain ⟨text, htext⟩ := hnext
          obtain ⟨pieces', rfl, -⟩ := head_flatMap_written hdollar (by decide) htext.symm
          have hall'' (form : AccessForm) (h : .reference form ∈ pieces') : form ∈ AccessForm.all :=
            hall' form (List.mem_cons_of_mem _ h)
          exact .reach hwritten hnew hne (hempty _) hmatch rfl
            (replaces_kind hdollar hold hall'' hlater.2)
        · rw [if_neg hnext] at hmatch
          exact .replace hwritten hnew hne (hempty _) hmatch
            (replaces_kind hdollar hold hall' hlater)
      · exact .replace hwritten hnew hne (hempty _) (matchAt_form hform hdot newName _)
          (replaces_kind hdollar hold hall' hlater)
    · refine .keep (if_neg hkind) (noMatch_of_startsAt hmatches fun k => ?_)
        (replaces_kind hdollar hold hall' hlater)
      cases k with
      | zero => exact decide_eq_false hkind
      | succ k => rfl
termination_by pieces => pieces.length

theorem infix_of_mem {form : AccessForm} {pieces : List Segment} (h : .reference form ∈ pieces) :
    reference form <:+: pieces.flatMap (Segment.written reference) := by
  obtain ⟨before, after, rfl⟩ := List.append_of_mem h
  rw [List.flatMap_append, List.flatMap_cons]
  exact ⟨before.flatMap _, after.flatMap _, List.append_assoc _ _ _⟩

/-- Without the text that is checked for, there is no reference of the kind. -/
theorem kind_ne_of_unchecked {kind : AccessKind} {pieces : List Segment}
    (hold : ∀ form, form.kind = kind → reference form = form.text previousName)
    (hall : ∀ form, .reference form ∈ pieces → form ∈ AccessForm.all)
    (hcheck : ¬ kind.pattern.checkPattern <:+: pieces.flatMap (Segment.written reference))
    (form : AccessForm) (hform : .reference form ∈ pieces) : form.kind ≠ kind := by
  rintro rfl
  have hstart : form.kind.pattern.checkPattern <+: reference form := by
    rw [hold form rfl, form.text_eq, List.append_assoc]
    exact (AccessForm.checkPattern_prefix form (hall form hform)).trans (List.prefix_append _ _)
  exact hcheck (hstart.isInfix.trans (infix_of_mem hform))

theorem flatMap_written_congr {reference' : AccessForm → CodeUnits} {pieces : List Segment}
    (h : ∀ form, .reference form ∈ pieces → reference form = reference' form) :
    pieces.flatMap (Segment.written reference) = pieces.flatMap (Segment.written reference') := by
  refine List.flatMap_congr fun segment hsegment => ?_
  cases segment with
  | unit unit => rfl
  | reference form => exact h form hsegment

/-- One turn of the loop, but for the callback. -/
theorem applyPattern_kind (kind : AccessKind) {pieces : List Segment}
    (hdollar : StartsWithDollar reference)
    (hold : ∀ form, form.kind = kind → reference form = form.text previousName)
    (hall : ∀ form, .reference form ∈ pieces → form ∈ AccessForm.all)
    (hmatches : MatchesOnly (kind.pattern.Matches previousName) reference (Segment.startsAt kind)
      pieces) :
    applyPattern newName (backslashEscape previousName) (dollarEscape newName)
        (pieces.flatMap (Segment.written reference)) kind.pattern =
      if kind.pattern.checkPattern <:+: pieces.flatMap (Segment.written reference) then
        (kind.pattern.customCallback.getD fun expression _ _ => expression)
          (pieces.flatMap (Segment.written (renameKind newName reference kind))) newName
          (dollarEscape newName)
      else pieces.flatMap (Segment.written (renameKind newName reference kind)) := by
  unfold applyPattern
  refine ite_congr rfl (fun _ => ?_) fun hcheck => flatMap_written_congr fun form hform =>
    (if_neg (kind_ne_of_unchecked hold hall hcheck form hform)).symm
  dsimp only
  rw [(replaces_kind hdollar hold hall hmatches).replaceAll_eq]
  cases kind.pattern.customCallback <;> rfl

theorem applyPattern_plain (kind : AccessKind) {pieces : List Segment}
    (hcallback : kind.pattern.customCallback = none) (hdollar : StartsWithDollar reference)
    (hold : ∀ form, form.kind = kind → reference form = form.text previousName)
    (hall : ∀ form, .reference form ∈ pieces → form ∈ AccessForm.all)
    (hmatches : MatchesOnly (kind.pattern.Matches previousName) reference (Segment.startsAt kind)
      pieces) :
    applyPattern newName (backslashEscape previousName) (dollarEscape newName)
        (pieces.flatMap (Segment.written reference)) kind.pattern =
      pieces.flatMap (Segment.written (renameKind newName reference kind)) := by
  rw [applyPattern_kind kind hdollar hold hall hmatches, hcallback]
  exact ite_self _

end OnePattern

/-! ## Brackets -/

section Banned

variable {newName : CodeUnits}

theorem matchBanned_eq (unit : ℕ) (text : CodeUnits) :
    matchBanned (backslashEscape newName)
        (units "[\"" ++ dollarEscape newName ++ units "\"]$1") (unit :: text) =
      if unit ∈ lineTerminators then none
      else [units " ", units "."].findSome? fun after =>
        if (newName ++ after).isPrefixOf text then
          some ((newName ++ after).length + 1, units "[\"" ++ newName ++ units "\"]" ++ after)
        else none := by
  rw [matchBanned, literal_backslashEscape]
  simp only [expand_bracket]
  rfl

theorem matchBanned_eq_none : ∀ {text : CodeUnits}, ¬ MatchesBanned newName text →
    matchBanned (backslashEscape newName)
      (units "[\"" ++ dollarEscape newName ++ units "\"]$1") text = none
  | [], _ => rfl
  | unit :: text, h => by
    rw [matchBanned_eq]
    split_ifs with hunit
    · rfl
    · rw [List.findSome?_eq_none_iff]
      intro after hafter
      rw [if_neg]
      rw [List.isPrefixOf_iff_prefix]
      exact fun hstart => h ⟨hunit, after, hafter, hstart⟩

/-- A space or a dot behind the name is kept. -/
theorem matchBanned_dot {unit : ℕ} (hunit : unit ∈ units " .") (later : CodeUnits) :
    matchBanned (backslashEscape newName)
        (units "[\"" ++ dollarEscape newName ++ units "\"]$1")
        (units "." ++ newName ++ ([unit] ++ later)) =
      some ((units "." ++ newName ++ [unit]).length,
        units "[\"" ++ newName ++ units "\"]" ++ [unit]) := by
  have hdot : units "." = [0x2e] := by decide
  have hspace : units " " = [0x20] := by decide
  have hstart (after : ℕ) :
      (newName ++ [after]).isPrefixOf (newName ++ ([unit] ++ later)) = true ↔ after = unit := by
    rw [List.isPrefixOf_iff_prefix, List.prefix_append_right_inj]
    simp
  have htext : units "." ++ newName ++ ([unit] ++ later) =
      0x2e :: (newName ++ ([unit] ++ later)) := by
    rw [hdot, List.append_assoc, List.singleton_append]
  rw [htext, matchBanned_eq, if_neg (by decide), hspace, hdot, List.findSome?_cons,
    List.findSome?_cons, List.findSome?_nil]
  simp only [hstart]
  rw [show units " ." = [0x20, 0x2e] by decide] at hunit
  rcases List.mem_cons.1 hunit with rfl | hunit
  · simp
  · obtain rfl := List.mem_singleton.1 hunit
    simp

/-- Where the new name is matched as that of a reference by dot only, these are put in brackets. -/
theorem replaces_banned {previousName : CodeUnits}
    (hbanned : hasDotNotationBannedChar newName = true) : ∀ {pieces : List Segment},
      MatchesOnly (MatchesBanned newName) (renamedKinds previousName newName [.call, .node, .dot])
        Segment.dotAt pieces → DotsFollowed pieces →
      Replaces (matchBanned (backslashEscape newName)
          (units "[\"" ++ dollarEscape newName ++ units "\"]$1"))
        (Segment.written (renamedKinds previousName newName [.call, .node, .dot]))
        (Segment.written (renamedDots previousName newName)) pieces
  | [], _, _ => .nil
  | .unit unit :: pieces, ⟨hmatches, hlater⟩, hdots =>
    .keep rfl (fun k hk => matchBanned_eq_none fun hmatch => by cases hmatches k hk hmatch)
      (replaces_banned hbanned hlater hdots.2)
  | .reference form :: pieces, ⟨hmatches, hlater⟩, hdots => by
    by_cases hdot : form = .dot
    · subst hdot
      obtain ⟨unit, hunit, hnext⟩ := hdots.1 rfl
      obtain ⟨pieces, rfl⟩ := List.head?_eq_some_iff.1 hnext
      have hnode : units "$node." = units "$node" ++ units "." := by decide
      have hopen : units "$node[" ++ [0x22] = units "$node" ++ units "[\"" := by decide
      have hclose : [0x22] ++ units "]" = units "\"]" := by decide
      have hwritten : (Segment.reference .dot).written
          (renamedKinds previousName newName [.call, .node, .dot]) =
            units "$node" ++ (units "." ++ newName) := by
        rw [← List.append_assoc, ← hnode]
        rfl
      have hnew : (Segment.reference .dot).written (renamedDots previousName newName) =
          units "$node" ++ (units "[\"" ++ newName ++ units "\"]") := by
        rw [Segment.written, renamedDots, if_pos ⟨rfl, hbanned⟩, AccessForm.text_eq]
        simp only [AccessForm.group, hopen, hclose, List.append_assoc]
      refine .reach hwritten hnew (by simp [units]) (fun k hk => ?_)
        (matchBanned_dot hunit _) rfl (replaces_banned hbanned hlater.2 hdots.2.2)
      refine matchBanned_eq_none fun hmatch => ?_
      have hallowed := hmatches k (by rw [hwritten, List.length_append]; omega) (by
        rwa [hwritten, List.drop_append_of_le_length hk.le, List.append_assoc])
      have hlength : (units "$node").length = 5 := by decide
      rw [hlength] at hk
      rw [Segment.dotAt] at hallowed
      · cases hallowed
      · omega
    · refine .keep (if_neg fun h => hdot h.1) (fun k hk => matchBanned_eq_none fun hmatch => ?_)
        (replaces_banned hbanned hlater hdots.2)
      have hallowed := hmatches k hk hmatch
      cases form with
      | dot => exact hdot rfl
      | call => cases hallowed
      | node => cases hallowed
      | items => cases hallowed
termination_by pieces => pieces.length

end Banned

/-! ## All patterns -/

section Renaming

variable {continuesName : ℕ → Bool} {previousName newName expression : CodeUnits}

theorem startsWithDollar_renamedKinds (kinds : List AccessKind) :
    StartsWithDollar (renamedKinds previousName newName kinds) := by
  intro form
  cases form <;> exact ⟨_, rfl⟩

theorem startsWithDollar_renamedDots : StartsWithDollar (renamedDots previousName newName) := by
  intro form
  unfold renamedDots
  split_ifs
  · exact ⟨_, rfl⟩
  · exact startsWithDollar_renamedKinds _ form

theorem renamedKinds_of_not_mem {kinds : List AccessKind} {form : AccessForm}
    (h : form.kind ∉ kinds) :
    renamedKinds previousName newName kinds form = form.text previousName := by
  rw [renamedKinds, if_neg h]

theorem renameKind_renamedKinds (kinds : List AccessKind) (kind : AccessKind) :
    renameKind newName (renamedKinds previousName newName kinds) kind =
      renamedKinds previousName newName (kinds ++ [kind]) := by
  funext form
  unfold renameKind renamedKinds
  by_cases hkind : form.kind = kind
  · rw [if_pos hkind, if_pos (List.mem_append_right _ (List.mem_singleton.2 hkind))]
  · have hmem : form.kind ∈ kinds ++ [kind] ↔ form.kind ∈ kinds := by simp [hkind]
    rw [if_neg hkind]
    simp only [hmem]

/-- The turn of the pattern for references by dot, with its callback. -/
theorem applyPattern_dot (hclear : Clear continuesName previousName newName expression) :
    applyPattern newName (backslashEscape previousName) (dollarEscape newName)
        ((segments continuesName previousName 0 expression).flatMap
          (Segment.written (renamedKinds previousName newName [.call, .node]))) .dot =
      (segments continuesName previousName 0 expression).flatMap
        (Segment.written (renamedDots previousName newName)) := by
  have hall (form : AccessForm)
      (h : .reference form ∈ segments continuesName previousName 0 expression) :
      form ∈ AccessForm.all := mem_all_of_mem_segments h
  have hold (form : AccessForm) (hkind : form.kind = .dot) :
      renamedKinds previousName newName [.call, .node] form = form.text previousName :=
    renamedKinds_of_not_mem (by rw [hkind]; decide)
  refine (applyPattern_kind .dot (startsWithDollar_renamedKinds _) hold hall hclear.dot).trans ?_
  rw [renameKind_renamedKinds]
  by_cases hcheck : AccessKind.dot.pattern.checkPattern <:+:
      (segments continuesName previousName 0 expression).flatMap
        (Segment.written (renamedKinds previousName newName [.call, .node]))
  · rw [if_pos hcheck]
    change bracketBanned _ newName (dollarEscape newName) = _
    unfold bracketBanned
    by_cases hbanned : hasDotNotationBannedChar newName = true
    · obtain ⟨hmatches, hdots⟩ := hclear.banned hbanned hcheck
      rw [if_pos hbanned]
      exact (replaces_banned hbanned hmatches hdots).replaceAll_eq
    · rw [if_neg hbanned]
      exact flatMap_written_congr fun form _ => (if_neg fun h => hbanned h.2).symm
  · rw [if_neg hcheck]
    refine flatMap_written_congr fun form hform => (if_neg fun h => ?_).symm
    exact kind_ne_of_unchecked hold hall hcheck form hform (congrArg AccessForm.kind h.1)

/-- The references in their last form. -/
def renamed (previousName newName : CodeUnits) : AccessForm → CodeUnits :=
  renameKind newName (renamedDots previousName newName) .items

theorem applyAccessPatterns_eq (hclear : Clear continuesName previousName newName expression) :
    applyAccessPatterns expression previousName newName =
      (segments continuesName previousName 0 expression).flatMap
        (Segment.written (renamed previousName newName)) := by
  have hexpression : expression = (segments continuesName previousName 0 expression).flatMap
      (Segment.written (renamedKinds previousName newName [])) :=
    (flatMap_segments continuesName previousName 0 expression).symm
  have hall (form : AccessForm)
      (h : .reference form ∈ segments continuesName previousName 0 expression) :
      form ∈ AccessForm.all := mem_all_of_mem_segments h
  unfold applyAccessPatterns
  by_cases hname : previousName <:+: expression
  · have hcall : applyPattern newName (backslashEscape previousName) (dollarEscape newName)
        expression .call = (segments continuesName previousName 0 expression).flatMap
          (Segment.written (renamedKinds previousName newName [.call])) := by
      refine (congrArg (applyPattern newName _ _ · .call) hexpression).trans ?_
      refine (applyPattern_plain .call rfl (startsWithDollar_renamedKinds []) (fun form _ =>
        renamedKinds_of_not_mem List.not_mem_nil) hall hclear.call).trans ?_
      rw [renameKind_renamedKinds]
      rfl
    have hnode : applyPattern newName (backslashEscape previousName) (dollarEscape newName)
        ((segments continuesName previousName 0 expression).flatMap
          (Segment.written (renamedKinds previousName newName [.call]))) .node =
        (segments continuesName previousName 0 expression).flatMap
          (Segment.written (renamedKinds previousName newName [.call, .node])) := by
      refine (applyPattern_plain .node rfl (startsWithDollar_renamedKinds _) (fun form hkind =>
        renamedKinds_of_not_mem (by rw [hkind]; decide)) hall hclear.node).trans ?_
      rw [renameKind_renamedKinds]
      rfl
    have hitems : applyPattern newName (backslashEscape previousName) (dollarEscape newName)
        ((segments continuesName previousName 0 expression).flatMap
          (Segment.written (renamedDots previousName newName))) .items =
        (segments continuesName previousName 0 expression).flatMap
          (Segment.written (renamed previousName newName)) := by
      refine applyPattern_plain .items rfl startsWithDollar_renamedDots (fun form hkind => ?_) hall
        hclear.items
      rw [renamedDots, if_neg fun h => by rw [h.1] at hkind; cases hkind]
      exact renamedKinds_of_not_mem (by rw [hkind]; decide)
    rw [if_neg (not_not.2 hname)]
    unfold accessPatterns
    rw [List.foldl_cons, List.foldl_cons, List.foldl_cons, List.foldl_cons, List.foldl_nil, hcall,
      hnode, applyPattern_dot hclear, hitems]
  · rw [if_pos hname]
    refine hexpression.trans (flatMap_written_congr fun form hform => absurd ?_ hname)
    have hinfix : previousName <:+: form.text previousName := by
      rw [form.text_eq]
      exact List.infix_append _ _ _
    have hmem : form.text previousName <:+:
        (segments continuesName previousName 0 expression).flatMap
          (Segment.written (renamedKinds previousName newName [])) := infix_of_mem hform
    rw [← hexpression] at hmem
    exact hinfix.trans hmem

/-- A reference in its last form is one to the new name. -/
theorem renamed_reference (hclear : Clear continuesName previousName newName expression)
    {form : AccessForm} (h : .reference form ∈ segments continuesName previousName 0 expression) :
    Segment.Renamed continuesName newName (.reference form)
      (renamed previousName newName form) := by
  have hnew (form : AccessForm) (hne : form ≠ .dot) : Segment.Renamed continuesName newName
      (.reference form) (form.text newName) := .reference fun hdot => absurd hdot hne
  cases form with
  | call quote => exact hnew _ (by simp)
  | node quote => exact hnew _ (by simp)
  | items quote close => exact hnew _ (by simp)
  | dot =>
    by_cases hbanned : hasDotNotationBannedChar newName = true
    · have hbracket : renamed previousName newName .dot = (AccessForm.node 0x22).text newName :=
        if_pos ⟨rfl, hbanned⟩
      rw [hbracket]
      exact .bracket (by decide)
    · have hdot : renamed previousName newName .dot = AccessForm.dot.text newName :=
        if_neg fun h => hbanned h.2
      rw [hdot]
      exact .reference fun _ => hclear.identifier h (Bool.eq_false_iff.2 hbanned)

end Renaming

/-- Without a reference nothing may be changed. -/
theorem Renames.eq_of_forall_unit {continuesName : ℕ → Bool}
    {previousName newName expression result : CodeUnits}
    (h : Renames continuesName previousName newName expression result)
    (hunit : segments continuesName previousName 0 expression = expression.map .unit) :
    result = expression := by
  obtain ⟨parts, hparts, rfl⟩ := h
  rw [hunit] at hparts
  clear hunit
  induction expression generalizing parts with
  | nil =>
    cases hparts
    rfl
  | cons unit expression ih =>
    cases hparts with
    | cons hfirst hrest =>
      cases hfirst
      rw [List.flatten_cons, ih _ hrest]
      rfl

end N8n
