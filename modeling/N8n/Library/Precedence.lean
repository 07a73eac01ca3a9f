import Mathlib.Data.List.Basic

/-!
# Reading `AND` and `OR` without parentheses

Conditions written one after the other, with a connective between any two, are read with `AND`
binding closer than `OR`. `parse` keeps the disjunction and the conjunction read so far, for each
parenthesis that is open.

`parse_join` is the reading of conditions that are each complete in themselves: one conjunction for
each stretch between two `OR`s. A condition may be unknown; what is true is then what is true with
unknown conditions left out (`truth_eq_true`).
-/

namespace Precedence

variable {α : Type*}

inductive Connective
  | and | or
  deriving DecidableEq, Repr

inductive Token (α : Type*)
  | atom (a : α)
  | connective (c : Connective)
  | lpar | rpar
  deriving DecidableEq, Repr

inductive Expr (α : Type*)
  | atom (a : α)
  | and (e f : Expr α)
  | or (e f : Expr α)

/-- What has been read since the last open parenthesis: the operand of the last `OR`, and the
conjunction after it. -/
structure Frame (α : Type*) where
  ors : Option (Expr α) := none
  ands : Option (Expr α) := none

namespace Frame

variable (f : Frame α)

def operand (e : Expr α) : Frame α :=
  { f with ands := some (match f.ands with | none => e | some g => .and g e) }

def close : Option (Expr α) :=
  f.ands.map fun e => match f.ors with | none => e | some g => .or g e

/-- An operand after a connective. -/
def feed (c : Connective) (e : Expr α) : Frame α :=
  match c with
  | .and => f.operand e
  | .or => ({ ors := f.close } : Frame α).operand e

end Frame

/-- The enclosing frames, the frame at hand and whether an operand is due. -/
def parseFrom : List (Frame α) → Frame α → Bool → List (Token α) → Option (Expr α)
  | [], f, false, [] => f.close
  | outer, f, true, .atom a :: ts => parseFrom outer (f.operand (.atom a)) false ts
  | outer, f, true, .lpar :: ts => parseFrom (f :: outer) {} true ts
  | g :: outer, f, false, .rpar :: ts =>
    f.close.bind fun e => parseFrom outer (g.operand e) false ts
  | outer, f, false, .connective .and :: ts => parseFrom outer f true ts
  | outer, f, false, .connective .or :: ts => parseFrom outer { ors := f.close } true ts
  | _, _, _, _ => none

def parse (ts : List (Token α)) : Option (Expr α) := parseFrom [] {} true ts

/-! ## What is complete in itself -/

/-- Wherever an operand is due, these tokens are read as this one. -/
def Reads (ts : List (Token α)) (e : Expr α) : Prop :=
  ∀ outer (f : Frame α) rest,
    parseFrom outer f true (ts ++ rest) = parseFrom outer (f.operand e) false rest

theorem reads_atom (a : α) : Reads [.atom a] (.atom a) := by
  intro outer f rest
  cases outer <;> rfl

theorem Reads.parse {ts : List (Token α)} {e : Expr α} (h : Reads ts e) : parse ts = some e := by
  have hread := h [] {} []
  rw [List.append_nil] at hread
  exact hread

/-- A condition with the connective before it. -/
structure Clause (α : Type*) where
  connective : Connective
  tokens : List (Token α)

/-- The connective of the first condition is left out. -/
def join : List (Clause α) → List (Token α)
  | [] => []
  | c :: cs => c.tokens ++ cs.flatMap fun c => .connective c.connective :: c.tokens

theorem parseFrom_connective (outer : List (Frame α)) (f : Frame α) (c : Connective)
    (ts : List (Token α)) : parseFrom outer f false (.connective c :: ts) =
      parseFrom outer (match c with | .and => f | .or => { ors := f.close }) true ts := by
  cases outer <;> cases c <;> rfl

theorem parseFrom_clauses {outer : List (Frame α)} {rest : List (Token α)} :
    ∀ {cs : List (Clause α)} {es : List (Connective × Expr α)} {f : Frame α},
      List.Forall₂ (fun c e => c.connective = e.1 ∧ Reads c.tokens e.2) cs es →
      parseFrom outer f false ((cs.flatMap fun c => .connective c.connective :: c.tokens) ++ rest) =
        parseFrom outer (es.foldl (fun f e => f.feed e.1 e.2) f) false rest
  | _, _, _, .nil => rfl
  | c :: cs, (k, e) :: es, f, .cons ⟨hk, he⟩ h => by
    rw [List.flatMap_cons, List.cons_append, List.cons_append, List.append_assoc, hk]
    rw [parseFrom_connective, he, List.foldl_cons, ← parseFrom_clauses h]
    cases k <;> rfl

variable {c : Clause α} {cs : List (Clause α)} {e : Expr α} {es : List (Connective × Expr α)}

theorem parseFrom_join (he : Reads c.tokens e)
    (h : List.Forall₂ (fun c e => c.connective = e.1 ∧ Reads c.tokens e.2) cs es)
    (outer : List (Frame α)) (f : Frame α) (rest : List (Token α)) :
    parseFrom outer f true (join (c :: cs) ++ rest) =
      parseFrom outer (es.foldl (fun f e => f.feed e.1 e.2) (f.operand e)) false rest := by
  rw [join, List.append_assoc, he]
  exact parseFrom_clauses h

theorem parse_join (he : Reads c.tokens e)
    (h : List.Forall₂ (fun c e => c.connective = e.1 ∧ Reads c.tokens e.2) cs es) :
    parse (join (c :: cs)) =
      (es.foldl (fun f e => f.feed e.1 e.2) (({} : Frame α).operand e)).close := by
  have hread := parseFrom_join he h [] {} []
  rw [List.append_nil] at hread
  exact hread

/-- Conditions in parentheses. -/
theorem reads_group (he : Reads c.tokens e)
    (h : List.Forall₂ (fun c e => c.connective = e.1 ∧ Reads c.tokens e.2) cs es) {g : Expr α}
    (hclose : (es.foldl (fun f e => f.feed e.1 e.2) (({} : Frame α).operand e)).close = some g) :
    Reads (.lpar :: join (c :: cs) ++ [.rpar]) g := by
  intro outer f rest
  have hopen : ∀ ts, parseFrom outer f true (.lpar :: ts) = parseFrom (f :: outer) {} true ts := by
    intro ts
    cases outer <;> rfl
  rw [List.cons_append, List.cons_append, List.append_assoc, hopen, parseFrom_join he h]
  change (Frame.close _).bind _ = _
  rw [hclose]
  rfl

/-! ## What is true -/

def kleeneAnd : Option Bool → Option Bool → Option Bool
  | some false, _ | _, some false => some false
  | some true, some true => some true
  | _, _ => none

def kleeneOr : Option Bool → Option Bool → Option Bool
  | some true, _ | _, some true => some true
  | some false, some false => some false
  | _, _ => none

/-- The value of an expression, `none` where it is unknown. -/
def Expr.truth (t : α → Option Bool) : Expr α → Option Bool
  | .atom a => t a
  | .and e f => kleeneAnd (e.truth t) (f.truth t)
  | .or e f => kleeneOr (e.truth t) (f.truth t)

def Expr.Holds (p : α → Prop) : Expr α → Prop
  | .atom a => p a
  | .and e f => e.Holds p ∧ f.Holds p
  | .or e f => e.Holds p ∨ f.Holds p

theorem truth_eq_true (t : α → Option Bool) : ∀ e : Expr α,
    e.truth t = some true ↔ e.Holds (t · = some true)
  | .atom a => Iff.rfl
  | .and e f => by
    rw [Expr.truth, Expr.Holds, ← truth_eq_true t e, ← truth_eq_true t f]
    rcases e.truth t with _ | _ | _ <;> rcases f.truth t with _ | _ | _ <;> simp [kleeneAnd]
  | .or e f => by
    rw [Expr.truth, Expr.Holds, ← truth_eq_true t e, ← truth_eq_true t f]
    rcases e.truth t with _ | _ | _ <;> rcases f.truth t with _ | _ | _ <;> simp [kleeneOr]

namespace Frame

variable (p : α → Prop) (f : Frame α)

def OrsHold : Prop := ∃ e ∈ f.ors, e.Holds p

def AndsHold : Prop := ∃ e ∈ f.ands, e.Holds p

theorem holds_close {e : Expr α} (h : f.close = some e) :
    e.Holds p ↔ f.OrsHold p ∨ f.AndsHold p := by
  obtain ⟨ors, ands⟩ := f
  obtain ⟨g, rfl, rfl⟩ := Option.map_eq_some_iff.1 h
  cases ors <;> simp [OrsHold, AndsHold, Expr.Holds]

theorem orsHold_operand (e : Expr α) : (f.operand e).OrsHold p ↔ f.OrsHold p := Iff.rfl

theorem andsHold_operand {f : Frame α} (h : f.ands.isSome) (e : Expr α) :
    (f.operand e).AndsHold p ↔ f.AndsHold p ∧ e.Holds p := by
  obtain ⟨g, hg⟩ := Option.isSome_iff_exists.1 h
  simp [AndsHold, operand, hg, Expr.Holds]

theorem isSome_feed (c : Connective) (e : Expr α) : (f.feed c e).ands.isSome := by
  cases c <;> rfl

theorem isSome_foldl : ∀ {es : List (Connective × Expr α)} {f : Frame α}, f.ands.isSome →
    (es.foldl (fun f e => f.feed e.1 e.2) f).ands.isSome
  | [], _, h => h
  | e :: _, f, _ => by
    rw [List.foldl_cons]
    exact isSome_foldl (isSome_feed f e.1 e.2)

theorem exists_close {f : Frame α} (h : f.ands.isSome) : ∃ e, f.close = some e := by
  obtain ⟨g, hg⟩ := Option.isSome_iff_exists.1 h
  unfold close
  rw [hg]
  exact ⟨_, rfl⟩

/-- After `OR` the conjunction starts anew. -/
theorem orsHold_feed_or {f : Frame α} (h : f.ands.isSome) (e : Expr α) :
    (f.feed .or e).OrsHold p ↔ f.OrsHold p ∨ f.AndsHold p := by
  obtain ⟨g', hg'⟩ := exists_close h
  rw [← holds_close p f hg']
  simp [OrsHold, feed, operand, hg']

theorem andsHold_feed_or (e : Expr α) : (f.feed .or e).AndsHold p ↔ e.Holds p := by
  simp [AndsHold, feed, operand]

/-- Conditions joined by `AND` to what is read last. -/
theorem feed_ands : ∀ (es : List (Expr α)) {f : Frame α}, f.ands.isSome →
    ((es.foldl (fun f e => f.feed .and e) f).OrsHold p ↔ f.OrsHold p) ∧
    ((es.foldl (fun f e => f.feed .and e) f).AndsHold p ↔ f.AndsHold p ∧ ∀ e ∈ es, e.Holds p) ∧
    (es.foldl (fun f e => f.feed .and e) f).ands.isSome
  | [], f, h => ⟨Iff.rfl, by simp, h⟩
  | e :: es, f, h => by
    obtain ⟨hors, hands, hsome⟩ := feed_ands es (isSome_feed f .and e)
    refine ⟨hors.trans (orsHold_operand p f e), ?_, hsome⟩
    rw [List.foldl_cons, hands, List.forall_mem_cons, ← and_assoc]
    exact and_congr_left' (andsHold_operand p h e)

def Held : Prop := f.OrsHold p ∨ f.AndsHold p

theorem held_feed_or {f : Frame α} (h : f.ands.isSome) (e : Expr α) :
    (f.feed .or e).Held p ↔ f.Held p ∨ e.Holds p :=
  or_congr (orsHold_feed_or p h e) (andsHold_feed_or p f e)

/-- Conditions joined by `OR`. -/
theorem held_feed_ors : ∀ {es : List (Expr α)} {f : Frame α}, f.ands.isSome →
    ((es.foldl (fun f e => f.feed .or e) f).Held p ↔ f.Held p ∨ ∃ e ∈ es, e.Holds p)
  | [], _, _ => by simp
  | e :: es, f, h => by
    rw [List.foldl_cons, held_feed_ors (isSome_feed f .or e), held_feed_or p h,
      List.exists_mem_cons_iff, or_assoc]

end Frame

end Precedence
