import Mathlib.Data.List.Infix

/-!
# Patterns with wildcards

A pattern is a list of items: any run of characters, or one character of some kind. Patterns are
written in several languages: `GLOB`, `LIKE` with an escape character, and text in which `%` is the
only wildcard.
-/

namespace Wildcards

inductive Item (α : Type*)
  | run
  | one (accepts : α → Bool)

/-- The text is made up of what the items stand for. -/
def matchItems {α : Type*} : List (Item α) → List α → Bool
  | [], text => text.isEmpty
  | .run :: items, text => text.tails.any (matchItems items)
  | .one _ :: _, [] => false
  | .one accepts :: items, a :: text => accepts a && matchItems items text

/-- A pattern that cannot be read matches nothing. -/
def matchPattern (items : Option (List (Item Char))) (text : List Char) : Bool :=
  items.any (matchItems · text)

/-! ## Text with `%` -/

def percentItem (c : Char) : Item Char := if c = '%' then .run else .one (· = c)

def percent (pattern : List Char) : List (Item Char) := pattern.map percentItem

/-! ## `LIKE` -/

/-- What comes after the escape character stands for itself. None may end the pattern. -/
def like (escape : Char) : List Char → Option (List (Item Char))
  | [] => some []
  | [c] =>
    if c = escape then none
    else some [if c = '%' then .run else if c = '_' then .one fun _ => true else .one (· = c)]
  | c :: next :: pattern =>
    if c = escape then (like escape pattern).map (.one (· = next) :: ·)
    else (like escape (next :: pattern)).map
      ((if c = '%' then .run else if c = '_' then .one fun _ => true else .one (· = c)) :: ·)

/-! ## `GLOB` -/

/-- The members of a set, single ones as ranges, and what comes after the bracket that ends it. A
hyphen makes a range of a single member before it and what comes after it. -/
def setMembers : Option Char → List Char → Option (List (Char × Char) × List Char)
  | _, [] => none
  | previous, c :: pattern =>
    if c = ']' then some ([], pattern)
    else
      match previous, c, pattern with
      | some first, '-', last :: pattern =>
        if last = ']' then (setMembers (some '-') (last :: pattern)).map (.map (('-', '-') :: ·) id)
        else (setMembers none pattern).map (.map ((first, last) :: ·) id)
      | _, c, pattern => (setMembers (some c) pattern).map (.map ((c, c) :: ·) id)

/-- A bracket right at the start of a set is a member of it. -/
def setBody : List Char → Option (List (Char × Char) × List Char)
  | ']' :: pattern => (setMembers none pattern).map (.map ((']', ']') :: ·) id)
  | pattern => setMembers none pattern

def inSet (members : List (Char × Char)) (c : Char) : Bool :=
  members.any fun range => range.1 ≤ c ∧ c ≤ range.2

/-- A set as an item, and what comes after it. -/
def globSet : List Char → Option (Item Char × List Char)
  | '^' :: pattern => (setBody pattern).map (.map (fun members => .one fun c => !inSet members c) id)
  | pattern => (setBody pattern).map (.map (fun members => .one (inSet members)) id)

/-- The items of a pattern, where there is fuel for all of its characters. -/
def globItems : ℕ → List Char → Option (List (Item Char))
  | 0, _ => none
  | _ + 1, [] => some []
  | fuel + 1, c :: pattern =>
    if c = '*' then (globItems fuel pattern).map (.run :: ·)
    else if c = '?' then (globItems fuel pattern).map (.one (fun _ => true) :: ·)
    else if c = '[' then
      (globSet pattern).bind fun read => (globItems fuel read.2).map (read.1 :: ·)
    else (globItems fuel pattern).map (.one (· = c) :: ·)

def glob (pattern : List Char) : Option (List (Item Char)) := globItems (pattern.length + 1) pattern

end Wildcards
