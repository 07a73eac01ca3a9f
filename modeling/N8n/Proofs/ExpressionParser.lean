import N8n.ExpressionParser
import N8n.Library.Delimiters

/-!
# Splitting and joining

Where the scanner finds no bracket, passes over one or stops at one, is told by the grammar of texts
up to a delimiter. An expression comes back when the scanner loses none of it and the first escaped
bracket of each code is found again, and the chunks that come back are those of such expressions.
-/

namespace N8n

namespace ExpressionParser

open Delimiters

/-! ## The scanner -/

section Scanner

variable {searchingFor : Bracket} {buffer s : List Char}

theorem char_ne (searchingFor : Bracket) : searchingFor.char ≠ '\\' := by
  cases searchingFor <;> decide

theorem splitFrom_nil (searchingFor : Bracket) (buffer : List Char) :
    splitFrom searchingFor buffer [] = [] := by
  rw [splitFrom, dif_pos rfl]

/-- A bracket ends the chunk. -/
theorem splitFrom_bracket (searchingFor : Bracket) (buffer s : List Char) :
    splitFrom searchingFor buffer (searchingFor.char :: searchingFor.char :: s) =
      chunk buffer true searchingFor :: splitFrom searchingFor.other [] s := by
  have hexec : exec searchingFor.char (searchingFor.char :: searchingFor.char :: s) =
      some (0, false) := by
    simp [exec, (char_ne searchingFor).symm]
  rw [splitFrom, dif_neg (List.cons_ne_nil _ _), hexec]
  simp

/-- An escaped bracket belongs to the chunk. -/
theorem splitFrom_escaped (searchingFor : Bracket) (buffer s : List Char) :
    splitFrom searchingFor buffer ('\\' :: searchingFor.char :: searchingFor.char :: s) =
      splitFrom searchingFor (buffer ++ ['\\', searchingFor.char, searchingFor.char]) s := by
  have hexec : exec searchingFor.char ('\\' :: searchingFor.char :: searchingFor.char :: s) =
      some (0, true) := by
    simp [exec]
  rw [splitFrom, dif_neg (List.cons_ne_nil _ _), hexec]
  simp

theorem exec_plain {c x : Char} {s : List Char} (h : Plain '\\' c (x :: s)) :
    exec c (x :: s) = (exec c s).map fun r => (r.1 + 1, r.2) := by
  rw [exec, if_neg h.escaped, if_neg h.delimiter]

/-- So does any other symbol, if it is not the last. -/
theorem splitFrom_plain {x : Char} (h : Plain '\\' searchingFor.char (x :: s)) (hs : s ≠ []) :
    splitFrom searchingFor buffer (x :: s) = splitFrom searchingFor (buffer ++ [x]) s := by
  rw [splitFrom, dif_neg (List.cons_ne_nil _ _), exec_plain h]
  conv_rhs => rw [splitFrom, dif_neg hs]
  rcases exec searchingFor.char s with _ | ⟨index, _ | _⟩
  · simp
  · simp
  · simp

theorem splitFrom_bare (searchingFor : Bracket) {t rest : List Char}
    (h : Bare '\\' searchingFor.char t) :
    ∀ buffer, splitFrom searchingFor buffer
        (t ++ searchingFor.char :: searchingFor.char :: rest) =
      chunk (buffer ++ t) true searchingFor :: splitFrom searchingFor.other [] rest := by
  induction h with
  | nil =>
    intro buffer
    rw [List.nil_append, splitFrom_bracket, List.append_nil]
  | @escaped s _ ih =>
    intro buffer
    simp only [List.cons_append]
    rw [splitFrom_escaped, ih]
    simp
  | @cons x s hplain _ ih =>
    intro buffer
    rw [List.cons_append, splitFrom_plain (plain_append_iff.2 hplain) (by simp), ih]
    simp

theorem splitFrom_unfinished (searchingFor : Bracket) (h : Unfinished '\\' searchingFor.char s) :
    ∀ buffer, splitFrom searchingFor buffer s = [chunk (buffer ++ s) false searchingFor] := by
  induction h with
  | last x =>
    intro buffer
    have hexec : exec searchingFor.char [x] = none := by simp [exec]
    rw [splitFrom, dif_neg (List.cons_ne_nil _ _), hexec]
  | @escaped s _ ih =>
    intro buffer
    rw [splitFrom_escaped, ih]
    simp
  | @cons x s hplain hs ih =>
    intro buffer
    have hne : s ≠ [] := by
      rintro rfl
      cases hs
    rw [splitFrom_plain hplain hne, ih]
    simp

theorem splitFrom_lost (searchingFor : Bracket) (h : Lost '\\' searchingFor.char s) :
    ∀ buffer, splitFrom searchingFor buffer s = [] := by
  induction h with
  | nil => exact fun buffer => splitFrom_nil searchingFor buffer
  | escaped _ ih =>
    intro buffer
    rw [splitFrom_escaped, ih]
  | cons hplain hne _ ih =>
    intro buffer
    rw [splitFrom_plain hplain hne, ih]

end Scanner

/-! ## Escaping code -/

/-- The first escaped bracket of the code comes right after another bracket symbol. -/
def bracketBeforeEscape : List Char → Bool
  | [] => false
  | x :: s =>
    if ['\\', '}', '}'] <+: x :: s then false
    else if ['}', '\\', '}', '}'] <+: x :: s then true
    else bracketBeforeEscape s

/-- The first bracket of the code is escaped. -/
def FirstEscaped : List Char → Prop
  | [] => True
  | x :: s => ['\\', '}', '}'] <+: x :: s ∨ (¬ ['}', '}'] <+: x :: s ∧ FirstEscaped s)

theorem firstEscaped_of_bare {t : List Char} (h : Bare '\\' '}' t) : FirstEscaped t := by
  induction h with
  | nil => trivial
  | @escaped s _ _ => exact .inl (List.prefix_append ['\\', '}', '}'] s)
  | @cons x s hplain _ ih =>
    refine .inr ⟨fun h => hplain.delimiter (h.trans ?_), ih⟩
    exact List.prefix_append (x :: s) ['}', '}']

theorem firstEscaped_of_unfinished {t : List Char} (h : Unfinished '\\' '}' t) :
    FirstEscaped t := by
  induction h with
  | last x => exact .inr ⟨by simp, trivial⟩
  | @escaped s _ _ => exact .inl (List.prefix_append ['\\', '}', '}'] s)
  | cons hplain _ ih => exact .inr ⟨hplain.delimiter, ih⟩

theorem replaceFirst_prefix (pattern replacement s : List Char) (hne : pattern ≠ []) :
    replaceFirst pattern replacement (pattern ++ s) = replacement ++ s := by
  cases pattern with
  | nil => exact absurd rfl hne
  | cons x pattern =>
    have hprefix : x :: pattern <+: x :: (pattern ++ s) := List.prefix_append (x :: pattern) s
    rw [List.cons_append, replaceFirst, if_pos hprefix]
    simp

/-- What a text with a replacement starts with. -/
theorem prefix_replaceFirst {pattern replacement s : List Char} {y : Char}
    (h : [y] <+: replaceFirst pattern replacement s) : pattern <+: s ∨ [y] <+: s := by
  cases s with
  | nil => exact .inr h
  | cons x s =>
    by_cases hpattern : pattern <+: x :: s
    · exact .inl hpattern
    · rw [replaceFirst, if_neg hpattern] at h
      rw [(List.cons_prefix_cons.1 h).1]
      exact .inr (List.prefix_append [x] s)

/-- No bracket starts the text after escaping. -/
theorem not_prefix_escapeTmplExpression (s : List Char) :
    ¬ ['}', '}'] <+: escapeTmplExpression s := by
  intro h
  cases s with
  | nil => simp [escapeTmplExpression, replaceFirst] at h
  | cons x s =>
    by_cases hbracket : ['}', '}'] <+: x :: s
    · obtain ⟨rest, hrest⟩ := hbracket
      rw [← hrest, escapeTmplExpression, replaceFirst_prefix _ _ _ (by simp)] at h
      simp at h
    · rw [escapeTmplExpression, replaceFirst, if_neg hbracket] at h
      obtain ⟨hx, hs⟩ := List.cons_prefix_cons.1 h
      rcases prefix_replaceFirst hs with hs | hs
      · have hstart := (List.prefix_append ['}'] ['}']).trans hs
        exact hbracket (hx ▸ List.cons_prefix_cons.2 ⟨rfl, hstart⟩)
      · exact hbracket (hx ▸ List.cons_prefix_cons.2 ⟨rfl, hs⟩)

theorem escapeCode_escapeTmplExpression : ∀ k : List Char,
    escapeCode (escapeTmplExpression k) = k
  | [] => rfl
  | x :: s => by
    by_cases h : ['}', '}'] <+: x :: s
    · obtain ⟨rest, hrest⟩ := h
      rw [← hrest, escapeTmplExpression, replaceFirst_prefix _ _ _ (by simp), escapeCode,
        replaceFirst_prefix _ _ _ (by simp)]
    · have htmpl : escapeTmplExpression (x :: s) = x :: escapeTmplExpression s := if_neg h
      have hnot : ¬ ['\\', '}', '}'] <+: x :: escapeTmplExpression s := fun hprefix =>
        not_prefix_escapeTmplExpression s (List.cons_prefix_cons.1 hprefix).2
      rw [htmpl, escapeCode, replaceFirst, if_neg hnot]
      exact congrArg _ (escapeCode_escapeTmplExpression s)

/-- How code comes out of being unescaped and escaped again. -/
theorem escape_cases {x : Char} {s : List Char} (h : FirstEscaped (x :: s)) :
    (['\\', '}', '}'] <+: x :: s ∧ escapeTmplExpression (escapeCode (x :: s)) = x :: s) ∨
      (¬ ['\\', '}', '}'] <+: x :: s ∧ ∃ rest, x :: s = ['}', '\\', '}', '}'] ++ rest ∧
        escapeTmplExpression (escapeCode (x :: s)) = ['\\', '}', '}', '}'] ++ rest) ∨
      (¬ ['\\', '}', '}'] <+: x :: s ∧ ¬ ['}', '\\', '}', '}'] <+: x :: s ∧ FirstEscaped s ∧
        escapeTmplExpression (escapeCode (x :: s)) = x :: escapeTmplExpression (escapeCode s)) := by
  by_cases hescaped : ['\\', '}', '}'] <+: x :: s
  · refine .inl ⟨hescaped, ?_⟩
    obtain ⟨rest, hrest⟩ := hescaped
    rw [← hrest, escapeCode, replaceFirst_prefix _ _ _ (by simp), escapeTmplExpression,
      replaceFirst_prefix _ _ _ (by simp)]
  obtain ⟨hbracket, hs⟩ := h.resolve_left hescaped
  have hcode : escapeCode (x :: s) = x :: escapeCode s := if_neg hescaped
  rw [hcode]
  by_cases hbefore : ['}', '\\', '}', '}'] <+: x :: s
  · obtain ⟨rest, hrest⟩ := hbefore
    obtain ⟨rfl, rfl⟩ := List.cons.inj hrest
    refine .inr (.inl ⟨hescaped, rest, rfl, ?_⟩)
    rw [List.append_eq, escapeCode, replaceFirst_prefix _ _ _ (by simp)]
    exact replaceFirst_prefix ['}', '}'] _ ('}' :: rest) (by simp)
  · refine .inr (.inr ⟨hescaped, hbefore, hs, if_neg fun hprefix => ?_⟩)
    obtain ⟨hx, hstart⟩ := List.cons_prefix_cons.1 hprefix
    rcases prefix_replaceFirst hstart with hs | hs
    · exact hbefore (List.cons_prefix_cons.2 ⟨hx, hs⟩)
    · exact hbracket (List.cons_prefix_cons.2 ⟨hx, hs⟩)

theorem escapeTmplExpression_escapeCode : ∀ {k : List Char}, FirstEscaped k →
    (escapeTmplExpression (escapeCode k) = k ↔ bracketBeforeEscape k = false)
  | [], _ => by simp [bracketBeforeEscape, escapeCode, escapeTmplExpression, replaceFirst]
  | x :: s, h => by
    rw [bracketBeforeEscape]
    rcases escape_cases h with ⟨hescaped, heq⟩ | ⟨hescaped, rest, hrest, heq⟩ |
      ⟨hescaped, hbefore, hs, heq⟩
    · rw [if_pos hescaped]
      exact iff_of_true heq rfl
    · rw [if_neg hescaped, if_pos (hrest ▸ List.prefix_append _ _), heq, hrest]
      exact iff_of_false (fun h => absurd (List.cons.inj h).1 (by decide)) (by decide)
    · rw [if_neg hescaped, if_neg hbefore, heq, List.cons.injEq,
        ← escapeTmplExpression_escapeCode hs]
      exact ⟨And.right, And.intro rfl⟩

/-- The length stays the same. -/
theorem length_escape : ∀ {k : List Char}, FirstEscaped k →
    (escapeTmplExpression (escapeCode k)).length = k.length
  | [], _ => rfl
  | x :: s, h => by
    rcases escape_cases h with ⟨-, heq⟩ | ⟨-, rest, hrest, heq⟩ | ⟨-, -, hs, heq⟩
    · rw [heq]
    · rw [heq, hrest, List.length_append, List.length_append]
      rfl
    · rw [heq, List.length_cons, List.length_cons, length_escape hs]

/-! ## The round trips -/

/-- Nothing of the expression is lost. -/
inductive Lossless : List Char → Prop
  | nil : Lossless []
  | text {t : List Char} : Unfinished '\\' '{' t → Lossless t
  | unfinished {t k : List Char} : Bare '\\' '{' t → Unfinished '\\' '}' k →
    bracketBeforeEscape k = false → Lossless (t ++ '{' :: '{' :: k)
  | code {t k e : List Char} : Bare '\\' '{' t → Bare '\\' '}' k →
    bracketBeforeEscape k = false → Lossless e →
      Lossless (t ++ '{' :: '{' :: (k ++ '}' :: '}' :: e))

/-- The chunks come back. -/
inductive RoundTrips : List ExpressionChunk → Prop
  | nil : RoundTrips []
  | text {t : List Char} : Unfinished '\\' '{' t → RoundTrips [.text t]
  | unfinished {t k : List Char} : Bare '\\' '{' t → Unfinished '\\' '}' (escapeTmplExpression k) →
    RoundTrips [.text t, .code k false]
  | code {t k : List Char} {chunks : List ExpressionChunk} : Bare '\\' '{' t →
    Bare '\\' '}' (escapeTmplExpression k) → RoundTrips chunks →
      RoundTrips (.text t :: .code k true :: chunks)

theorem splitExpression_text {t : List Char} (h : Unfinished '\\' '{' t) :
    splitExpression t = [.text t] :=
  have hsplit : splitFrom .open [] t = [chunk ([] ++ t) false .open] :=
    splitFrom_unfinished .open h []
  hsplit

/-- Text up to code, and the rest from the code on. -/
theorem splitExpression_bracket {t : List Char} (ht : Bare '\\' '{' t) (rest : List Char) :
    splitExpression (t ++ '{' :: '{' :: rest) = .text t :: splitFrom .close [] rest :=
  have hsplit : splitFrom .open [] (t ++ '{' :: '{' :: rest) =
    chunk ([] ++ t) true .open :: splitFrom .close [] rest := splitFrom_bare .open ht []
  hsplit

theorem splitFrom_code {k : List Char} (hk : Bare '\\' '}' k) (e : List Char) :
    splitFrom .close [] (k ++ '}' :: '}' :: e) =
      .code (escapeCode k) true :: splitExpression e :=
  have hsplit : splitFrom .close [] (k ++ '}' :: '}' :: e) =
    chunk ([] ++ k) true .close :: splitFrom .open [] e := splitFrom_bare .close hk []
  hsplit

theorem splitFrom_unfinishedCode {k : List Char} (hk : Unfinished '\\' '}' k) :
    splitFrom .close [] k = [.code (escapeCode k) false] :=
  have hsplit : splitFrom .close [] k = [chunk ([] ++ k) false .close] :=
    splitFrom_unfinished .close hk []
  hsplit

theorem splitFrom_lostCode {k : List Char} (hk : Lost '\\' '}' k) : splitFrom .close [] k = [] :=
  splitFrom_lost .close hk []

theorem joinExpression_cons (c : ExpressionChunk) (chunks : List ExpressionChunk) :
    joinExpression (c :: chunks) = joinChunk c ++ joinExpression chunks :=
  List.flatMap_cons

theorem Lossless.joinExpression {e : List Char} (h : Lossless e) :
    ExpressionParser.joinExpression (splitExpression e) = e := by
  induction h with
  | nil => rw [splitExpression, splitFrom_nil]; rfl
  | text ht =>
    rw [splitExpression_text ht]
    exact List.flatMap_singleton _ _
  | @unfinished t k ht hk hbracket =>
    have hk' := (escapeTmplExpression_escapeCode (firstEscaped_of_unfinished hk)).2 hbracket
    rw [splitExpression_bracket ht, splitFrom_unfinishedCode hk]
    simp [ExpressionParser.joinExpression, joinChunk, hk']
  | @code t k e ht hk hbracket _ ih =>
    have hk' := (escapeTmplExpression_escapeCode (firstEscaped_of_bare hk)).2 hbracket
    rw [splitExpression_bracket ht, splitFrom_code hk, joinExpression_cons, joinExpression_cons, ih]
    simp [joinChunk, hk']

theorem lossless_of_joinExpression : ∀ {e : List Char},
    joinExpression (splitExpression e) = e → Lossless e := by
  intro e
  induction hn : e.length using Nat.strong_induction_on generalizing e with
  | _ n ih =>
    subst hn
    intro h
    rcases bare_or '\\' '{' e with ⟨t, rest, ht, rfl⟩ | ht | ht
    · rw [splitExpression_bracket ht, joinExpression_cons] at h
      have hrest : joinExpression (splitFrom .close [] rest) = '{' :: '{' :: rest :=
        List.append_cancel_left h
      rcases bare_or '\\' '}' rest with ⟨k, e, hk, rfl⟩ | hk | hk
      · rw [splitFrom_code hk, joinExpression_cons, joinChunk] at hrest
        have hcode : escapeTmplExpression (escapeCode k) ++
            ('}' :: '}' :: joinExpression (splitExpression e)) = k ++ '}' :: '}' :: e := by
          simpa using hrest
        obtain ⟨hk', he⟩ := List.append_inj hcode (length_escape (firstEscaped_of_bare hk))
        refine .code ht hk ((escapeTmplExpression_escapeCode (firstEscaped_of_bare hk)).1 hk') ?_
        refine ih _ ?_ rfl (List.cons.inj (List.cons.inj he).2).2
        simp only [List.length_append, List.length_cons]
        omega
      · rw [splitFrom_unfinishedCode hk] at hrest
        have hk' : escapeTmplExpression (escapeCode rest) = rest := by
          simpa [joinExpression, joinChunk] using hrest
        exact .unfinished ht hk
          ((escapeTmplExpression_escapeCode (firstEscaped_of_unfinished hk)).1 hk')
      · rw [splitFrom_lostCode hk] at hrest
        cases hrest
    · exact .text ht
    · rw [splitExpression, splitFrom_lost .open ht] at h
      rw [← h]
      exact .nil

/-- The chunks of an expression of which nothing is lost come back. -/
theorem Lossless.roundTrips {e : List Char} (h : Lossless e) : RoundTrips (splitExpression e) := by
  induction h with
  | nil =>
    rw [splitExpression, splitFrom_nil]
    exact .nil
  | text ht =>
    rw [splitExpression_text ht]
    exact .text ht
  | @unfinished t k ht hk hbracket =>
    rw [splitExpression_bracket ht, splitFrom_unfinishedCode hk]
    refine .unfinished ht ?_
    rwa [(escapeTmplExpression_escapeCode (firstEscaped_of_unfinished hk)).2 hbracket]
  | @code t k e ht hk hbracket _ ih =>
    rw [splitExpression_bracket ht, splitFrom_code hk]
    refine .code ht ?_ ih
    rwa [(escapeTmplExpression_escapeCode (firstEscaped_of_bare hk)).2 hbracket]

theorem splitExpression_joinExpression {chunks : List ExpressionChunk} (h : RoundTrips chunks) :
    splitExpression (joinExpression chunks) = chunks := by
  induction h with
  | nil => exact splitFrom_nil .open []
  | @text t ht =>
    have hjoin : joinExpression [.text t] = t := List.flatMap_singleton _ _
    rw [hjoin, splitExpression_text ht]
  | @unfinished t k ht hk =>
    have hjoin : joinExpression [.text t, .code k false] =
        t ++ '{' :: '{' :: escapeTmplExpression k := by
      simp [joinExpression, joinChunk]
    rw [hjoin, splitExpression_bracket ht, splitFrom_unfinishedCode hk,
      escapeCode_escapeTmplExpression]
  | @code t k chunks ht hk _ ih =>
    have hjoin : joinExpression (.text t :: .code k true :: chunks) =
        t ++ '{' :: '{' :: (escapeTmplExpression k ++ '}' :: '}' :: joinExpression chunks) := by
      simp [joinExpression, joinChunk]
    rw [hjoin, splitExpression_bracket ht, splitFrom_code hk, escapeCode_escapeTmplExpression, ih]

theorem roundTrips_of_splitExpression {chunks : List ExpressionChunk}
    (h : splitExpression (joinExpression chunks) = chunks) : RoundTrips chunks := by
  have hlossless : Lossless (joinExpression chunks) :=
    lossless_of_joinExpression (congrArg joinExpression h)
  rw [← h]
  exact hlossless.roundTrips

/-- Which expressions come back from being split and joined, and which chunks from being joined and
split. -/
theorem split_join_iff (e : List Char) (chunks : List ExpressionChunk) :
    (joinExpression (splitExpression e) = e ↔ Lossless e) ∧
      (splitExpression (joinExpression chunks) = chunks ↔ RoundTrips chunks) :=
  ⟨⟨lossless_of_joinExpression, Lossless.joinExpression⟩,
    ⟨roundTrips_of_splitExpression, splitExpression_joinExpression⟩⟩

/-- An expression that ends with an opening bracket, and code with two closing brackets. -/
theorem split_join_counterexample :
    joinExpression (splitExpression ['{', '{']) ≠ ['{', '{'] ∧
      splitExpression (joinExpression [.text [], .code ['}', '}', '}', '}'] true]) ≠
        [.text [], .code ['}', '}', '}', '}'] true] := by
  constructor
  · have hsplit : splitExpression ['{', '{'] = [.text []] :=
      (splitExpression_bracket .nil []).trans (congrArg _ (splitFrom_nil .close []))
    rw [hsplit]
    decide
  · have hjoin : joinExpression [.text [], .code ['}', '}', '}', '}'] true] =
        '{' :: '{' :: (['\\', '}', '}'] ++ '}' :: '}' :: ['}', '}']) := by decide
    have hplain : Plain '\\' '{' ['}', '}'] := ⟨by decide, by decide⟩
    have hsplit : splitExpression (joinExpression [.text [], .code ['}', '}', '}', '}'] true]) =
        [.text [], .code ['}', '}'] true, .text ['}', '}']] := by
      rw [hjoin]
      refine (splitExpression_bracket .nil _).trans (congrArg _ ?_)
      refine (splitFrom_code (.escaped .nil) _).trans (congrArg _ ?_)
      exact splitExpression_text (.cons hplain (.last _))
    rw [hsplit]
    decide

end ExpressionParser

end N8n
