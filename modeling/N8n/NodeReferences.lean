import Mathlib.Data.List.Infix
import N8n.Library.Replacement

/-!
# References to nodes in expressions

`applyAccessPatterns` replaces the name of a node where an expression refers to it. A string is the
list of its code units.
-/

namespace N8n

open Replacement

abbrev CodeUnits := List ℕ

instance : LawfulBEq CodeUnits := inferInstance

def units (s : String) : CodeUnits := s.toList.map Char.toNat

def backslash : ℕ := 0x5c

def dollar : ℕ := 0x24

/-- `\d` -/
def isDigit (unit : ℕ) : Bool := 0x30 ≤ unit ∧ unit ≤ 0x39

/-! ## Escapes -/

def backslashEscapableChars : CodeUnits := units ".*+?^$\x7b\x7d()|[]\\"

def backslashEscape (nodeName : CodeUnits) : CodeUnits :=
  nodeName.flatMap fun char => if char ∈ backslashEscapableChars then [backslash, char] else [char]

def dollarEscape (nodeName : CodeUnits) : CodeUnits :=
  nodeName.flatMap fun char => if char = dollar then [dollar, dollar] else [char]

/-- The text that a regular expression without operators matches. -/
def literal : CodeUnits → Option CodeUnits
  | [] => some []
  | [char] => if char ∈ backslashEscapableChars then none else some [char]
  | char :: next :: source =>
    if char = backslash then
      if next ∈ backslashEscapableChars then (literal source).map (next :: ·) else none
    else if char ∈ backslashEscapableChars then none
    else (literal (next :: source)).map (char :: ·)

/-- The text of a group, which are counted from one. -/
def groupAt (groups : List CodeUnits) : ℕ → Option CodeUnits
  | 0 => none
  | number + 1 => groups[number]?

/-- What a replacement stands for, with the texts of the groups. A number of two digits is only read
where there is such a group. (`$&` and the like are not used.) -/
def expand (groups : List CodeUnits) : CodeUnits → CodeUnits
  | [] => []
  | [char] => [char]
  | char :: next :: replacement =>
    if char ≠ dollar then char :: expand groups (next :: replacement)
    else if next = dollar then dollar :: expand groups replacement
    else if isDigit next then
      let group := (groupAt groups (next - 0x30)).getD [dollar, next]
      match replacement with
      | [] => group
      | third :: rest =>
        match groupAt groups (if isDigit third then 10 * (next - 0x30) + (third - 0x30) else 0) with
        | some group => group ++ expand groups rest
        | none => group ++ expand groups (third :: rest)
    else char :: expand groups (next :: replacement)

/-! ## The patterns -/

/-- `/^(\d)|[\\ …]/` -/
def dotNotationBannedChars : CodeUnits := units "\\ `!@#$%^&*()_+-=[]\x7b\x7d;':\"\\|,.<>?~"

def hasDotNotationBannedChar (nodeName : CodeUnits) : Bool :=
  nodeName.head?.any isDigit || nodeName.any (· ∈ dotNotationBannedChars)

/-- The `.` of a regular expression matches all but these. -/
def lineTerminators : CodeUnits := [0x0a, 0x0d, 0x2028, 0x2029]

/-- A match of `` `.${source}( |\\.)` ``, and what replaces it. -/
def matchBanned (source replacement : CodeUnits) : CodeUnits → Option (ℕ × CodeUnits)
  | [] => none
  | unit :: text =>
    if unit ∈ lineTerminators then none
    else do
      let name ← literal source
      [units " ", units "."].findSome? fun after =>
        if (name ++ after).isPrefixOf text then
          some ((name ++ after).length + 1, expand [after] replacement)
        else none

/-- The `customCallback` of the pattern for `$node.`. -/
def bracketBanned (expression newName escapedNewName : CodeUnits) : CodeUnits :=
  if hasDotNotationBannedChar newName then
    replaceAll (matchBanned (backslashEscape newName)
      (units "[\"" ++ escapedNewName ++ units "\"]$1")) 0 expression
  else expression

/-- A name stands between two groups. Each of them is given by the texts that it matches, in the
order in which they are tried. -/
structure AccessPattern where
  checkPattern : CodeUnits
  before : List CodeUnits
  after : List CodeUnits
  customCallback : Option (CodeUnits → CodeUnits → CodeUnits → CodeUnits) := none

namespace AccessPattern

def call : AccessPattern where
  checkPattern := units "$("
  before := [units "$('", units "$(\""]
  after := [units "')", units "\")"]

def node : AccessPattern where
  checkPattern := units "$node["
  before := [units "$node['", units "$node[\""]
  after := [units "']", units "\"]"]

def dot : AccessPattern where
  checkPattern := units "$node."
  before := [units "$node."]
  after := [units ".", []]
  customCallback := some bracketBanned

def items : AccessPattern where
  checkPattern := units "$items("
  before := [units "$items('", units "$items(\""]
  after := [units "',", units "\",", units "')", units "\")"]

variable (pattern : AccessPattern)

def groups : List (CodeUnits × CodeUnits) :=
  pattern.before.flatMap fun before => pattern.after.map fun after => (before, after)

/-- A match of `replacePattern(source)`, and what replaces it. -/
def matchAt (source replacement text : CodeUnits) : Option (ℕ × CodeUnits) := do
  let name ← literal source
  pattern.groups.findSome? fun group =>
    if (group.1 ++ name ++ group.2).isPrefixOf text then
      some ((group.1 ++ name ++ group.2).length, expand [group.1, group.2] replacement)
    else none

end AccessPattern

/-- `ACCESS_PATTERNS` -/
def accessPatterns : List AccessPattern := [.call, .node, .dot, .items]

/-- One turn of the loop over the patterns. -/
def applyPattern (newName escapedOldName escapedNewName expression : CodeUnits)
    (pattern : AccessPattern) : CodeUnits :=
  if pattern.checkPattern <:+: expression then
    let expression := replaceAll
      (pattern.matchAt escapedOldName (units "$1" ++ escapedNewName ++ units "$2")) 0 expression
    match pattern.customCallback with
    | some customCallback => customCallback expression newName escapedNewName
    | none => expression
  else expression

def applyAccessPatterns (expression previousName newName : CodeUnits) : CodeUnits :=
  if ¬ previousName <:+: expression then expression
  else accessPatterns.foldl
    (applyPattern newName (backslashEscape previousName) (dollarEscape newName)) expression

end N8n

/-!
# What a reference is

The texts that refer to a node: `$("…")`, `$node["…"]`, `$node.…` and `$items("…"`, with the name of
the node as it is written there. An expression is read from left to right. Whether a code unit may
continue an identifier is left to the language.
-/

namespace N8n

/-- The ways to refer to a node, with the quote, and with what comes after it for `$items`. -/
inductive AccessForm
  | call (quote : ℕ)
  | node (quote : ℕ)
  | dot
  | items (quote close : ℕ)
  deriving DecidableEq, Repr

namespace AccessForm

def text (nodeName : CodeUnits) : AccessForm → CodeUnits
  | call quote => units "$(" ++ quote :: nodeName ++ quote :: units ")"
  | node quote => units "$node[" ++ quote :: nodeName ++ quote :: units "]"
  | dot => units "$node." ++ nodeName
  | items quote close => units "$items(" ++ quote :: nodeName ++ [quote, close]

def quotes : CodeUnits := units "'\""

def all : List AccessForm :=
  quotes.map call ++ quotes.map node ++ [dot] ++
    quotes.flatMap fun quote => (units ",)").map (items quote)

end AccessForm

/-- The code units of ASCII that may continue an identifier. -/
def continuesAscii (unit : ℕ) : Bool :=
  isDigit unit || (0x41 ≤ unit ∧ unit ≤ 0x5a) || (0x61 ≤ unit ∧ unit ≤ 0x7a) || unit ∈ units "_$"

section References

variable (continuesName : ℕ → Bool)

/-- The name can stand after a dot. -/
def IsIdentifier (nodeName : CodeUnits) : Prop :=
  nodeName ≠ [] ∧ nodeName.head?.any isDigit = false ∧ nodeName.all continuesName

instance (nodeName : CodeUnits) : Decidable (IsIdentifier continuesName nodeName) :=
  inferInstanceAs (Decidable (_ ∧ _ ∧ _))

/-- The text starts with a reference to the node. A name after a dot does not go on behind it. -/
def ReferenceAt (nodeName text : CodeUnits) (form : AccessForm) : Prop :=
  form.text nodeName <+: text ∧ (form = .dot → IsIdentifier continuesName nodeName ∧
    (text.drop (form.text nodeName).length).head?.any continuesName = false)

instance (nodeName text : CodeUnits) (form : AccessForm) :
    Decidable (ReferenceAt continuesName nodeName text form) := inferInstanceAs (Decidable (_ ∧ _))

inductive Segment
  | unit (unit : ℕ)
  | reference (form : AccessForm)
  deriving DecidableEq, Repr

/-- The references to a node in an expression, and all other code units. The number says how many
of them belong to a reference. -/
def segments (nodeName : CodeUnits) : ℕ → CodeUnits → List Segment
  | _, [] => []
  | skip + 1, _ :: expression => segments nodeName skip expression
  | 0, unit :: expression =>
    match AccessForm.all.find? fun form =>
      ReferenceAt continuesName nodeName (unit :: expression) form with
    | some form =>
      .reference form :: segments nodeName ((form.text nodeName).length - 1) expression
    | none => .unit unit :: segments nodeName 0 expression

def RefersTo (expression nodeName : CodeUnits) : Prop :=
  ∃ form, .reference form ∈ segments continuesName nodeName 0 expression

/-- What may stand for a segment once the node is renamed: a reference to it under its new name,
instead of one after a dot also one in brackets. -/
inductive Segment.Renamed (newName : CodeUnits) : Segment → CodeUnits → Prop
  | unit (unit : ℕ) : Renamed newName (.unit unit) [unit]
  | reference {form : AccessForm} : (form = .dot → IsIdentifier continuesName newName) →
      Renamed newName (.reference form) (form.text newName)
  | bracket {quote : ℕ} : quote ∈ AccessForm.quotes →
      Renamed newName (.reference .dot) ((AccessForm.node quote).text newName)

/-- Every reference to the node is renamed, and everything else is as it was. -/
def Renames (previousName newName expression result : CodeUnits) : Prop :=
  ∃ parts, List.Forall₂ (Segment.Renamed continuesName newName)
    (segments continuesName previousName 0 expression) parts ∧ result = parts.flatten

end References

/-! ## Where the patterns match -/

/-- A pattern with the name matches at the start of the text. -/
def AccessPattern.Matches (pattern : AccessPattern) (name text : CodeUnits) : Prop :=
  ∃ group ∈ pattern.groups, group.1 ++ name ++ group.2 <+: text

instance (pattern : AccessPattern) (name text : CodeUnits) :
    Decidable (pattern.Matches name text) := inferInstanceAs (Decidable (∃ _ ∈ _, _))

/-- The name stands behind some code unit, and a space or a dot behind it. -/
def MatchesBanned (name : CodeUnits) : CodeUnits → Prop
  | [] => False
  | unit :: text =>
    unit ∉ lineTerminators ∧ ∃ after ∈ [units " ", units "."], name ++ after <+: text

instance (name text : CodeUnits) : Decidable (MatchesBanned name text) :=
  match text with
  | [] => inferInstanceAs (Decidable False)
  | _ :: _ => inferInstanceAs (Decidable (_ ∧ _))

inductive AccessKind
  | call | node | dot | items
  deriving DecidableEq, Repr

def AccessKind.pattern : AccessKind → AccessPattern
  | call => .call
  | node => .node
  | dot => .dot
  | items => .items

def AccessForm.kind : AccessForm → AccessKind
  | call _ => .call
  | node _ => .node
  | dot => .dot
  | items _ _ => .items

namespace Segment

/-- The text of a segment, given that of a reference. -/
def written (reference : AccessForm → CodeUnits) : Segment → CodeUnits
  | .unit char => [char]
  | .reference form => reference form

/-- At this place in its text a reference of the kind starts. -/
def startsAt (kind : AccessKind) : Segment → ℕ → Bool
  | .reference form, 0 => form.kind = kind
  | _, _ => false

/-- This place in its text is the dot of `$node.`. -/
def dotAt : Segment → ℕ → Bool
  | .reference .dot, 5 => true
  | _, _ => false

end Segment

/-- In the texts of the segments there are matches at allowed places only. -/
def MatchesOnly (Matches : CodeUnits → Prop) (reference : AccessForm → CodeUnits)
    (allowed : Segment → ℕ → Bool) : List Segment → Prop
  | [] => True
  | segment :: later =>
    (∀ k < (segment.written reference).length,
      Matches ((segment.written reference).drop k ++ later.flatMap (Segment.written reference)) →
        allowed segment k) ∧
    MatchesOnly Matches reference allowed later

instance decidableMatchesOnly {Matches : CodeUnits → Prop} [DecidablePred Matches]
    {reference : AccessForm → CodeUnits} {allowed : Segment → ℕ → Bool} : ∀ segments,
    Decidable (MatchesOnly Matches reference allowed segments)
  | [] => inferInstanceAs (Decidable True)
  | _ :: later =>
    have : Decidable (MatchesOnly Matches reference allowed later) :=
      decidableMatchesOnly later
    inferInstanceAs (Decidable (_ ∧ _))

/-- A space or a dot comes after each reference by dot. -/
def DotsFollowed : List Segment → Prop
  | [] => True
  | segment :: later =>
    (segment = .reference .dot → ∃ unit ∈ units " .", later.head? = some (.unit unit)) ∧
      DotsFollowed later

instance decidableDotsFollowed : ∀ segments, Decidable (DotsFollowed segments)
  | [] => inferInstanceAs (Decidable True)
  | _ :: later =>
    have : Decidable (DotsFollowed later) := decidableDotsFollowed later
    inferInstanceAs (Decidable (_ ∧ _))

section Clear

variable (continuesName : ℕ → Bool) (previousName newName expression : CodeUnits)

/-- References of these kinds have the new name, and the others the old one. -/
def renamedKinds (kinds : List AccessKind) (form : AccessForm) : CodeUnits :=
  form.text (if form.kind ∈ kinds then newName else previousName)

/-- References by dot are in brackets now if the new name cannot stand after a dot. -/
def renamedDots (form : AccessForm) : CodeUnits :=
  if form = .dot ∧ hasDotNotationBannedChar newName then (AccessForm.node 0x22).text newName
  else renamedKinds previousName newName [.call, .node, .dot] form

/-- The patterns match the references, and nothing else: neither in the expression nor where
references have been renamed. -/
structure Clear : Prop where
  call : MatchesOnly (AccessPattern.call.Matches previousName)
    (renamedKinds previousName newName []) (Segment.startsAt .call)
    (segments continuesName previousName 0 expression)
  node : MatchesOnly (AccessPattern.node.Matches previousName)
    (renamedKinds previousName newName [.call]) (Segment.startsAt .node)
    (segments continuesName previousName 0 expression)
  dot : MatchesOnly (AccessPattern.dot.Matches previousName)
    (renamedKinds previousName newName [.call, .node]) (Segment.startsAt .dot)
    (segments continuesName previousName 0 expression)
  items : MatchesOnly (AccessPattern.items.Matches previousName)
    (renamedDots previousName newName) (Segment.startsAt .items)
    (segments continuesName previousName 0 expression)
  /-- Where a reference by dot stays one, the new name can stand there. -/
  identifier : .reference .dot ∈ segments continuesName previousName 0 expression →
    hasDotNotationBannedChar newName = false → IsIdentifier continuesName newName
  /-- Otherwise the new name stands before a space or a dot just where a reference by dot has been
  renamed. -/
  banned : hasDotNotationBannedChar newName = true →
    units "$node." <:+: (segments continuesName previousName 0 expression).flatMap
      (Segment.written (renamedKinds previousName newName [.call, .node])) →
    MatchesOnly (MatchesBanned newName)
      (renamedKinds previousName newName [.call, .node, .dot]) Segment.dotAt
      (segments continuesName previousName 0 expression) ∧
    DotsFollowed (segments continuesName previousName 0 expression)

end Clear

end N8n
