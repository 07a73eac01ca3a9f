import N8n.FromAiParseUtils

/-!
# Quoted arguments of `$fromAI`

An argument in quotes is unescaped twice, and a call is looked for in it. What has neither a
backslash before a quote or a backslash nor the start of a call is read back as it was.
-/

namespace N8n.FromAi

variable {δ : Type} (readers : Readers δ)

/-! ## What it is for -/

/-- In quotes a backslash stands before that quote and before a backslash. -/
def escapeQuoted (quote c : Char) : List Char :=
  if c = quote ∨ c = '\\' then ['\\', c] else [c]

def quoted (quote : Char) (text : List Char) : List Char :=
  quote :: text.flatMap (escapeQuoted quote) ++ [quote]

/-- What stands in the parentheses of a call, and the one that closes it. -/
def callArguments (key : List Char) (quote : Char) (description : List Char) : List Char :=
  quoted '\'' key ++ [',', ' '] ++ quoted quote description ++ [')']

def call (key : List Char) (quote : Char) (description : List Char) : List Char :=
  ['$', 'f', 'r', 'o', 'm', 'A', 'I', '('] ++ callArguments key quote description

/-- No call starts anywhere in the text. -/
def NoCall (text : List Char) : Prop := ∀ later, later <:+ text → matchCall later = none

instance (text : List Char) : Decidable (NoCall text) :=
  decidable_of_iff (∀ later ∈ text.tails, matchCall later = none) (by simp [NoCall])

/-- A key without quotes, backslashes and dollar signs. -/
def PlainKey (key : List Char) : Prop := ∀ c ∈ key, c ≠ '\'' ∧ c ≠ '\\' ∧ c ≠ '$'

/-- The call is read as the argument, wherever it stands, and only what comes after it is left for
further calls. -/
def ReadBack (key : List Char) (quote : Char) (description : List Char) : Prop :=
  ∀ before after, NoCall before →
    traverseNodeParameters readers (.text (before ++ call key quote description ++ after)) =
      (extractFromAICalls readers after).map
        (⟨key, some description, "string".toList, none⟩ :: ·)

/-- There is no backslash before a quote or a backslash. -/
def NoEscape (text : List Char) : Prop :=
  ∀ c ∈ '\\' :: quotes, ¬ ['\\', c] <:+: text

instance (text : List Char) : Decidable (NoEscape text) :=
  List.decidableBAll (fun c => ¬ ['\\', c] <:+: text) ('\\' :: quotes)

/-! ## The second unescaping -/

theorem replaceEscaped_spec (char : Char) : ∀ text : List Char,
    (¬ ['\\', char] <:+: text → replaceEscaped char text = text) ∧
      (['\\', char] <:+: text → (replaceEscaped char text).length < text.length) ∧
      (replaceEscaped char text).length ≤ text.length
  | [] => ⟨fun _ => rfl, fun h => by simpa using h.length_le, le_rfl⟩
  | [c] => ⟨fun _ => rfl, fun h => by simpa using h.length_le, le_rfl⟩
  | c :: next :: text => by
    rw [replaceEscaped]
    split_ifs with h
    · obtain ⟨rfl, rfl⟩ := h
      obtain ⟨-, -, hle⟩ := replaceEscaped_spec next text
      have hmatch : ['\\', next] <:+: '\\' :: next :: text := ⟨[], text, rfl⟩
      simp only [List.length_cons]
      exact ⟨fun hno => absurd hmatch hno, fun _ => by omega, by omega⟩
    · obtain ⟨hself, hlt, hle⟩ := replaceEscaped_spec char (next :: text)
      have hpart : ['\\', char] <:+: c :: next :: text ↔ ['\\', char] <:+: next :: text := by
        rw [List.infix_cons_iff]
        refine or_iff_right fun hstart => h ?_
        rw [List.cons_prefix_cons, List.cons_prefix_cons] at hstart
        exact ⟨hstart.1.symm, hstart.2.1.symm⟩
      rw [hpart]
      simp only [List.length_cons] at hlt hle ⊢
      exact ⟨fun hno => by rw [hself hno], fun hin => by have := hlt hin; omega, by omega⟩

theorem replaceEscaped_length_le (char : Char) (text : List Char) :
    (replaceEscaped char text).length ≤ text.length := (replaceEscaped_spec char text).2.2

theorem replaceEscaped_eq_self_iff {char : Char} {text : List Char} :
    replaceEscaped char text = text ↔ ¬ ['\\', char] <:+: text := by
  obtain ⟨hself, hlt, -⟩ := replaceEscaped_spec char text
  refine ⟨fun heq hin => ?_, hself⟩
  have := hlt hin
  rw [heq] at this
  exact lt_irrefl _ this

/-- A replacement makes a text shorter, so that the text stays only if none takes place. -/
theorem replaceEscaped_eq_of_length {char : Char} {text : List Char}
    (h : text.length ≤ (replaceEscaped char text).length) : replaceEscaped char text = text := by
  obtain ⟨hself, hlt, -⟩ := replaceEscaped_spec char text
  exact hself fun hin => absurd (hlt hin) (not_lt.2 h)

theorem unescape_eq_self_iff (text : List Char) : unescape text = text ↔ NoEscape text := by
  have hno : NoEscape text ↔ replaceEscaped '\\' text = text ∧ replaceEscaped '"' text = text ∧
      replaceEscaped '\'' text = text ∧ replaceEscaped '\x60' text = text := by
    simp only [NoEscape, quotes, List.forall_mem_cons, replaceEscaped_eq_self_iff]
    simp
  rw [hno, unescape]
  constructor
  · intro h
    have hlength := congrArg List.length h
    have hslash := replaceEscaped_length_le '\\' (replaceEscaped '"' (replaceEscaped '\x60'
      (replaceEscaped '\'' text)))
    have hdouble := replaceEscaped_length_le '"' (replaceEscaped '\x60' (replaceEscaped '\'' text))
    have hback := replaceEscaped_length_le '\x60' (replaceEscaped '\'' text)
    have hsingle := replaceEscaped_length_le '\'' text
    have h1 : replaceEscaped '\'' text = text := replaceEscaped_eq_of_length (by omega)
    rw [h1] at hlength hslash hdouble hback h
    have h2 : replaceEscaped '\x60' text = text := replaceEscaped_eq_of_length (by omega)
    rw [h2] at hlength hslash hdouble h
    have h3 : replaceEscaped '"' text = text := replaceEscaped_eq_of_length (by omega)
    rw [h3] at h
    exact ⟨h, h3, h1, h2⟩
  · rintro ⟨hslash, hdouble, hsingle, hback⟩
    rw [hsingle, hback, hdouble, hslash]

/-! ## Reading the arguments of the call -/

theorem escapeQuoted_of_special {quote c : Char} (h : c = quote ∨ c = '\\') :
    escapeQuoted quote c = ['\\', c] := if_pos h

theorem escapeQuoted_of_plain {quote c : Char} (h : ¬ (c = quote ∨ c = '\\')) :
    escapeQuoted quote c = [c] := if_neg h

theorem ne_backslash {quote : Char} (hquote : quote ∈ quotes) : quote ≠ '\\' := by
  rintro rfl
  simp [quotes] at hquote

theorem scanArguments_char {quote char : Char} (hchar : char ≠ '\\') (parentheses : ℕ)
    {text : List Char} (htext : text ≠ []) :
    scanArguments (some quote) (parentheses + 1) (char :: text) =
      (scanArguments (if char = quote then none else some quote) (parentheses + 1) text).map
        (char :: ·) := by
  cases text with
  | nil => exact absurd rfl htext
  | cons next text => rw [scanArguments, if_neg hchar]

section Reading

variable {quote : Char} (hquote : quote ∈ quotes)

include hquote

/-- The scanner goes over an argument in quotes. -/
theorem scanArguments_quoted (parentheses : ℕ) (c : Char) (later : List Char) : ∀ text : List Char,
    scanArguments (some quote) (parentheses + 1)
        (text.flatMap (escapeQuoted quote) ++ quote :: c :: later) =
      (scanArguments none (parentheses + 1) (c :: later)).map
        (text.flatMap (escapeQuoted quote) ++ quote :: ·)
  | [] => by
    rw [List.flatMap_nil, List.nil_append,
      scanArguments_char (ne_backslash hquote) parentheses (List.cons_ne_nil _ _), if_pos rfl]
    rfl
  | char :: text => by
    have ih := scanArguments_quoted parentheses c later text
    rw [List.flatMap_cons]
    by_cases hspecial : char = quote ∨ char = '\\'
    · rw [escapeQuoted_of_special hspecial]
      simp only [List.cons_append, List.nil_append]
      rw [scanArguments, if_pos rfl, ih, Option.map_map]
      rfl
    · obtain ⟨hne, hslash⟩ := not_or.1 hspecial
      rw [escapeQuoted_of_plain hspecial, List.singleton_append, List.cons_append,
        scanArguments_char hslash parentheses (by simp), if_neg hne, ih, Option.map_map]
      rfl

/-- Without the backslashes it is added to the current argument. -/
theorem splitArguments_quoted (later : List Char) : ∀ text currentArg : List Char,
    splitArguments (some quote) false currentArg
        (text.flatMap (escapeQuoted quote) ++ quote :: later) =
      splitArguments none false (currentArg ++ text ++ [quote]) later
  | [], currentArg => by
    rw [List.flatMap_nil, List.nil_append, splitArguments, if_neg (ne_backslash hquote),
      if_pos hquote, if_neg (Option.some_ne_none _), if_pos rfl, List.append_nil]
  | char :: text, currentArg => by
    have ih := splitArguments_quoted later text (currentArg ++ [char])
    rw [List.append_assoc currentArg, List.singleton_append] at ih
    rw [List.flatMap_cons]
    by_cases hspecial : char = quote ∨ char = '\\'
    · rw [escapeQuoted_of_special hspecial]
      simp only [List.cons_append, List.nil_append]
      rw [splitArguments, if_pos rfl, splitArguments, ih]
    · obtain ⟨hne, hslash⟩ := not_or.1 hspecial
      rw [escapeQuoted_of_plain hspecial, List.singleton_append, List.cons_append, splitArguments,
        if_neg hslash, ← ih]
      by_cases hother : char ∈ quotes
      · rw [if_pos hother, if_neg (Option.some_ne_none _),
          if_neg (fun h => hne (Option.some.inj h).symm)]
      · rw [if_neg hother, if_neg (fun h => Option.some_ne_none _ h.2)]

theorem trim_quoted (text : List Char) : trim (quote :: text ++ [quote]) = quote :: text ++ [quote] := by
  have hspace : isSpace quote = false := by
    simp only [quotes, List.mem_cons, List.not_mem_nil, or_false] at hquote
    rcases hquote with rfl | rfl | rfl <;> decide
  rw [trim, List.cons_append, List.dropWhile_cons_of_neg (by simp [hspace]), ← List.cons_append,
    List.rdropWhile_concat_neg _ _ _ (by simp [hspace])]

theorem cleanArg_quoted (text : List Char) : cleanArg (quote :: text ++ [quote]) = unescape text := by
  have hends : (quotes.any fun q => (quote :: text ++ [quote]).head? = some q &&
      (quote :: text ++ [quote]).getLast? = some q) = true := by
    rw [List.any_eq_true]
    refine ⟨quote, hquote, ?_⟩
    rw [List.getLast?_concat]
    simp
  rw [cleanArg, trim_quoted hquote, if_pos hends, List.cons_append, List.tail_cons,
    List.dropLast_concat]

end Reading

theorem callArguments_append (key : List Char) (quote : Char) (description after : List Char) :
    callArguments key quote description ++ after =
      '\'' :: (key.flatMap (escapeQuoted '\'') ++ '\'' :: ',' :: ' ' :: quote ::
        (description.flatMap (escapeQuoted quote) ++ quote :: ')' :: after)) := by
  simp [callArguments, quoted]

section Call

variable {quote : Char} (hquote : quote ∈ quotes)

include hquote

theorem scanArguments_callArguments (key description after : List Char) :
    scanArguments none 1 (callArguments key quote description ++ after) =
      some ('\'' :: (key.flatMap (escapeQuoted '\'') ++ '\'' :: ',' :: ' ' :: quote ::
        (description.flatMap (escapeQuoted quote) ++ [quote]))) := by
  have hsingle : '\'' ∈ quotes := by decide
  rw [callArguments_append, scanArguments, if_pos hsingle, scanArguments_quoted hsingle,
    scanArguments, if_neg (by decide), if_neg (by decide), if_neg (by decide),
    scanArguments, if_neg (by decide), if_neg (by decide), if_neg (by decide),
    scanArguments, if_pos hquote, scanArguments_quoted hquote,
    scanArguments, if_neg (by decide), if_neg (by decide), if_pos rfl, scanArguments]
  rfl

theorem splitArguments_callArguments (key description : List Char) :
    splitArguments none false [] ('\'' :: (key.flatMap (escapeQuoted '\'') ++ '\'' :: ',' :: ' ' ::
        quote :: (description.flatMap (escapeQuoted quote) ++ [quote]))) =
      ['\'' :: key ++ ['\''], quote :: description ++ [quote]] := by
  have hsingle : '\'' ∈ quotes := by decide
  have htrim : trim (' ' :: quote :: description ++ [quote]) = quote :: description ++ [quote] := by
    rw [← trim_quoted hquote description]
    rfl
  rw [splitArguments, if_neg (by decide), if_pos hsingle, if_pos rfl,
    splitArguments_quoted hsingle, splitArguments, if_neg (by decide), if_neg (by decide),
    if_pos ⟨rfl, rfl⟩, splitArguments, if_neg (by decide), if_neg (by decide), if_neg (by decide),
    splitArguments, if_neg (ne_backslash hquote), if_pos hquote, if_pos rfl,
    splitArguments_quoted hquote, splitArguments, if_neg (by simp)]
  exact congrArg₂ (fun a b => [a, b]) (trim_quoted hsingle key) htrim

theorem parseCall_callArguments {key : List Char} (hkey : PlainKey key)
    (description after : List Char) :
    parseCall readers (callArguments key quote description ++ after) =
      .ok ⟨key, some (unescape description), "string".toList, none⟩ := by
  have hsingle : '\'' ∈ quotes := by decide
  have hunescape : unescape key = key := by
    refine (unescape_eq_self_iff key).2 fun c _ hin => ?_
    exact (hkey '\\' (hin.subset List.mem_cons_self)).2.1 rfl
  rw [parseCall, scanArguments_callArguments hquote]
  simp only [parseArguments]
  rw [splitArguments_callArguments hquote, List.map_cons, List.map_cons, List.map_nil,
    cleanArg_quoted hsingle, cleanArg_quoted hquote, hunescape]
  rfl

end Call

/-! ## Where calls are found -/

theorem afterWord_suffix : ∀ {word text after : List Char}, afterWord word text = some after →
    after <:+ text
  | [], _, _, h => by
    cases h
    exact List.suffix_rfl
  | _ :: _, [], _, h => by cases h
  | letter :: word, c :: text, after, h => by
    rw [afterWord] at h
    split_ifs at h
    exact (afterWord_suffix h).trans (List.suffix_cons c text)

theorem afterParenthesis_suffix {text after : List Char} (h : afterParenthesis text = some after) :
    after <:+ text := by
  unfold afterParenthesis at h
  split at h
  · cases h
  · rename_i c start hstart
    split_ifs at h
    cases h
    have hparenthesis : c :: start <:+ text := hstart ▸ List.dropWhile_suffix _
    exact (List.dropWhile_suffix _).trans ((List.suffix_cons _ _).trans hparenthesis)

/-- The name of the function behind the dollar sign. -/
def letters : List Char := ['f', 'r', 'o', 'm', 'a', 'i']

theorem matchCall_cons (c : Char) (text : List Char) : matchCall (c :: text) =
    if c.toLower = '$' then (afterWord letters text).bind afterParenthesis else none := by
  rw [matchCall, afterWord]
  split_ifs <;> rfl

theorem matchCall_suffix {c : Char} {text after : List Char} (h : matchCall (c :: text) = some after) :
    after <:+ text := by
  rw [matchCall_cons] at h
  split_ifs at h
  obtain ⟨start, hstart, hafter⟩ := Option.bind_eq_some_iff.1 h
  exact (afterParenthesis_suffix hafter).trans (afterWord_suffix hstart)

theorem callsFrom_ahead : ∀ ahead text : List Char,
    callsFrom readers ahead.length (ahead ++ text) = callsFrom readers 0 text
  | [], _ => rfl
  | _ :: ahead, text => callsFrom_ahead ahead text

/-- A call that is found is read, and the search goes on behind its start. -/
theorem callsFrom_of_matchCall {c : Char} {text start : List Char}
    (h : matchCall (c :: text) = some start) :
    callsFrom readers 0 (c :: text) =
      match parseCall readers start with
      | .error error => .error error
      | .ok argument => (callsFrom readers 0 start).map (argument :: ·) := by
  obtain ⟨passed, rfl⟩ := matchCall_suffix h
  have hahead : callsFrom readers ((passed ++ start).length - start.length) (passed ++ start) =
      callsFrom readers 0 start := by
    rw [List.length_append, Nat.add_sub_cancel, callsFrom_ahead]
  rw [callsFrom, h]
  cases hargument : parseCall readers start with
  | error error => simp only [hargument]
  | ok argument => simp only [hargument, hahead]

theorem callsFrom_of_none {c : Char} {text : List Char} (h : matchCall (c :: text) = none) :
    callsFrom readers 0 (c :: text) = callsFrom readers 0 text := by
  rw [callsFrom, h]

theorem callsFrom_eq_nil_iff : ∀ {text : List Char},
    callsFrom readers 0 text = .ok [] ↔ NoCall text
  | [] => by
    refine ⟨fun _ later hlater => ?_, fun _ => rfl⟩
    rw [List.suffix_nil.1 hlater]
    rfl
  | c :: text => by
    have ih : callsFrom readers 0 text = .ok [] ↔ NoCall text := callsFrom_eq_nil_iff
    have hsuffix : NoCall (c :: text) ↔ matchCall (c :: text) = none ∧ NoCall text := by
      simp only [NoCall, List.suffix_cons_iff, forall_eq_or_imp]
    rw [hsuffix]
    cases h : matchCall (c :: text) with
    | none =>
      rw [callsFrom_of_none readers h, ih]
      simp
    | some start =>
      rw [callsFrom_of_matchCall readers h]
      cases parseCall readers start with
      | error => simp
      | ok argument =>
        cases callsFrom readers 0 start <;> simp [Except.map]

/-! ## Calls in escaped text -/

/-- How a text is written: as it is, or with backslashes before characters that are in no call. -/
def Writes (write : Char → List Char) : Prop :=
  ∀ c, write c = [c] ∨ write c = ['\\', c] ∧ c ∈ '\\' :: quotes

section Written

variable {write : Char → List Char} (hwrite : Writes write)

include hwrite

/-- A character that is written with a backslash is not part of a call. -/
theorem toLower_of_written {c : Char} (hc : write c ≠ [c]) :
    write c = ['\\', c] ∧ isSpace c = false ∧ c ≠ '(' ∧ ∀ letter ∈ '$' :: letters,
      c.toLower ≠ letter := by
  obtain ⟨hescaped, hmem⟩ := (hwrite c).resolve_left hc
  refine ⟨hescaped, ?_⟩
  simp only [quotes, List.mem_cons, List.not_mem_nil, or_false] at hmem
  rcases hmem with rfl | rfl | rfl | rfl <;>
    exact ⟨by decide, by decide, List.forall_mem_ne.2 (by decide)⟩

theorem afterWord_written {d : Char} (later : List Char) : ∀ word text : List Char,
    (∀ letter ∈ word, letter ∈ '$' :: letters) → d.toLower ∉ word →
    afterWord word (text.flatMap write ++ d :: later) =
      (afterWord word text).map fun text => text.flatMap write ++ d :: later
  | [], _, _, _ => by simp only [afterWord, Option.map_some]
  | letter :: word, [], _, hd =>
    if_neg fun h : d.toLower = letter => hd (h ▸ List.mem_cons_self)
  | letter :: word, c :: text, hword, hd => by
    have ih := afterWord_written later word text (fun l hl => hword l (List.mem_cons_of_mem _ hl))
      (fun h => hd (List.mem_cons_of_mem _ h))
    have hletter := hword letter List.mem_cons_self
    rw [List.flatMap_cons, afterWord]
    by_cases hc : write c = [c]
    · rw [hc, List.singleton_append, List.cons_append, afterWord, ih]
      split_ifs <;> rfl
    · obtain ⟨hescaped, -, -, hne⟩ := toLower_of_written hwrite hc
      have hslash : Char.toLower '\\' ≠ letter := by
        rintro rfl
        revert hletter
        decide
      rw [hescaped, if_neg (hne letter hletter)]
      exact if_neg hslash

theorem dropWhile_written {d : Char} (hd : isSpace d = false) (later : List Char) :
    ∀ text : List Char, (text.flatMap write ++ d :: later).dropWhile isSpace =
      (text.dropWhile isSpace).flatMap write ++ d :: later
  | [] => List.dropWhile_cons_of_neg (by simp [hd])
  | c :: text => by
    by_cases hc : write c = [c]
    · by_cases hspace : isSpace c
      · rw [List.flatMap_cons, hc, List.dropWhile_cons_of_pos hspace, ← dropWhile_written hd later text]
        exact List.dropWhile_cons_of_pos hspace
      · rw [List.dropWhile_cons_of_neg hspace, List.flatMap_cons, hc]
        exact List.dropWhile_cons_of_neg hspace
    · obtain ⟨hescaped, hspace, -⟩ := toLower_of_written hwrite hc
      rw [List.dropWhile_cons_of_neg (by simp [hspace]), List.flatMap_cons, hescaped]
      exact List.dropWhile_cons_of_neg (by decide)

theorem afterParenthesis_written {d : Char} (hd : isSpace d = false) (hparenthesis : d ≠ '(')
    (later text : List Char) : afterParenthesis (text.flatMap write ++ d :: later) =
      (afterParenthesis text).map fun text => text.flatMap write ++ d :: later := by
  rw [afterParenthesis, afterParenthesis, dropWhile_written hwrite hd]
  cases text.dropWhile isSpace with
  | nil => exact if_neg hparenthesis
  | cons c start =>
    rw [List.flatMap_cons]
    by_cases hc : write c = [c]
    · rw [hc, List.singleton_append, List.cons_append]
      simp only [dropWhile_written hwrite hd]
      split_ifs <;> rfl
    · obtain ⟨hescaped, -, hopen, -⟩ := toLower_of_written hwrite hc
      rw [hescaped]
      simp only [if_neg hopen]
      exact if_neg (by decide)

/-- What ends a written text without being part of a call. -/
def Ends (d : Char) : Prop := isSpace d = false ∧ d ≠ '(' ∧ d.toLower ∉ letters

theorem matchCall_written {d : Char} (hd : Ends d) (c : Char) (text later : List Char) :
    matchCall ((c :: text).flatMap write ++ d :: later) =
      (matchCall (c :: text)).map fun text => text.flatMap write ++ d :: later := by
  rw [List.flatMap_cons, matchCall_cons]
  by_cases hc : write c = [c]
  · rw [hc, List.singleton_append, List.cons_append, matchCall_cons,
      afterWord_written hwrite later _ text (fun l hl => List.mem_cons_of_mem _ hl) hd.2.2]
    split_ifs
    · cases afterWord letters text with
      | none => rfl
      | some start => exact afterParenthesis_written hwrite hd.1 hd.2.1 later start
    · rfl
  · obtain ⟨hescaped, -, -, hne⟩ := toLower_of_written hwrite hc
    have hslash : Char.toLower '\\' ≠ '$' := by decide
    rw [hescaped, if_neg (hne _ List.mem_cons_self)]
    exact (matchCall_cons _ _).trans (if_neg hslash)

/-- A text without calls is passed over. -/
theorem callsFrom_written {d : Char} (hd : Ends d) (later : List Char) : ∀ text : List Char,
    NoCall text → callsFrom readers 0 (text.flatMap write ++ d :: later) =
      callsFrom readers 0 (d :: later)
  | [], _ => rfl
  | c :: text, hno => by
    have hnone : matchCall ((c :: text).flatMap write ++ d :: later) = none := by
      rw [matchCall_written hwrite hd, hno _ List.suffix_rfl, Option.map_none]
    have ih := callsFrom_written hd later text fun later h => hno later (h.trans (List.suffix_cons _ _))
    rw [List.flatMap_cons] at hnone ⊢
    by_cases hc : write c = [c]
    · rw [hc, List.singleton_append, List.cons_append] at hnone ⊢
      rw [callsFrom_of_none readers hnone, ih]
    · obtain ⟨hescaped, -, -, hne⟩ := toLower_of_written hwrite hc
      rw [hescaped] at hnone ⊢
      simp only [List.cons_append, List.nil_append] at hnone ⊢
      rw [callsFrom_of_none readers hnone, callsFrom_of_none, ih]
      rw [matchCall_cons, if_neg (hne _ List.mem_cons_self)]

end Written

/-! ## Reading a call back -/

theorem writes_escapeQuoted {quote : Char} (hquote : quote ∈ quotes) : Writes (escapeQuoted quote) := by
  intro c
  by_cases h : c = quote ∨ c = '\\'
  · refine Or.inr ⟨escapeQuoted_of_special h, ?_⟩
    rcases h with rfl | rfl
    · exact List.mem_cons_of_mem _ hquote
    · exact List.mem_cons_self
  · exact Or.inl (escapeQuoted_of_plain h)

theorem ends_quote {quote : Char} (hquote : quote ∈ quotes) : Ends quote := by
  simp only [quotes, List.mem_cons, List.not_mem_nil, or_false] at hquote
  rcases hquote with rfl | rfl | rfl <;> (unfold Ends; decide)

theorem toLower_ne_dollar {c : Char} (hc : c ≠ '$') : c.toLower ≠ '$' := by
  unfold Char.toLower
  split_ifs with h
  · intro heq
    have hval : c.val + 32 = 36 := congrArg Char.val heq
    have hlow : 65 ≤ c.val.toNat := UInt32.le_iff_toNat_le.1 h.1
    have hhigh : c.val.toNat ≤ 90 := UInt32.le_iff_toNat_le.1 h.2
    have hsum : (c.val.toNat + 32) % 2 ^ 32 = 36 :=
      (UInt32.toNat_add c.val 32).symm.trans (congrArg UInt32.toNat hval)
    omega
  · exact hc

theorem matchCall_of_ne {c : Char} (hc : c ≠ '$') (text : List Char) : matchCall (c :: text) = none := by
  rw [matchCall_cons, if_neg (toLower_ne_dollar hc)]

theorem callsFrom_cons_of_ne {c : Char} (hc : c ≠ '$') (text : List Char) :
    callsFrom readers 0 (c :: text) = callsFrom readers 0 text :=
  callsFrom_of_none readers (matchCall_of_ne hc text)

theorem noCall_of_plainKey {key : List Char} (hkey : PlainKey key) : NoCall key := by
  intro later hlater
  cases later with
  | nil => rfl
  | cons c text => exact matchCall_of_ne (hkey c (hlater.subset List.mem_cons_self)).2.2 text

theorem matchCall_call (key : List Char) (quote : Char) (description after : List Char) :
    matchCall (call key quote description ++ after) =
      some (callArguments key quote description ++ after) := by
  have hopen : isSpace '(' ≠ true := by decide
  have hquote : isSpace '\'' ≠ true := by decide
  have hname (text : List Char) :
      afterWord letters (['f', 'r', 'o', 'm', 'A', 'I'] ++ text) = some text := rfl
  rw [call, List.append_assoc, callArguments_append]
  refine (matchCall_cons _ _).trans ((if_pos rfl).trans ?_)
  refine (congrArg (·.bind afterParenthesis) (hname ('(' :: _))).trans ?_
  rw [Option.bind_some, afterParenthesis, List.dropWhile_cons_of_neg hopen]
  exact congrArg some (List.dropWhile_cons_of_neg hquote)

theorem ne_dollar {quote : Char} (hquote : quote ∈ quotes) : quote ≠ '$' := by
  rintro rfl
  simp [quotes] at hquote

/-- The calls in the arguments are those in the description, and those that come after. -/
theorem callsFrom_callArguments {key : List Char} (hkey : PlainKey key) {quote : Char}
    (hquote : quote ∈ quotes) {description : List Char} (hno : NoCall description)
    (after : List Char) :
    callsFrom readers 0 (callArguments key quote description ++ after) =
      callsFrom readers 0 after := by
  have hsingle : '\'' ∈ quotes := by decide
  rw [callArguments_append, callsFrom_cons_of_ne readers (by decide),
    callsFrom_written readers (writes_escapeQuoted hsingle) (ends_quote hsingle) _ key
      (noCall_of_plainKey hkey),
    callsFrom_cons_of_ne readers (by decide), callsFrom_cons_of_ne readers (by decide),
    callsFrom_cons_of_ne readers (by decide), callsFrom_cons_of_ne readers (ne_dollar hquote),
    callsFrom_written readers (writes_escapeQuoted hquote) (ends_quote hquote) _ description hno,
    callsFrom_cons_of_ne readers (ne_dollar hquote), callsFrom_cons_of_ne readers (by decide)]

theorem extractFromAICalls_call {key : List Char} (hkey : PlainKey key) {quote : Char}
    (hquote : quote ∈ quotes) (description after : List Char) {before : List Char}
    (hbefore : NoCall before) :
    extractFromAICalls readers (before ++ call key quote description ++ after) =
      (callsFrom readers 0 (callArguments key quote description ++ after)).map
        (⟨key, some (unescape description), "string".toList, none⟩ :: ·) := by
  have hends : Ends '$' := by
    unfold Ends
    decide
  have hplain : Writes fun c => [c] := fun c => Or.inl rfl
  have hpassed := callsFrom_written readers hplain hends
    (['f', 'r', 'o', 'm', 'A', 'I', '('] ++ callArguments key quote description ++ after)
    before hbefore
  rw [List.flatMap_singleton'] at hpassed
  rw [extractFromAICalls, List.append_assoc]
  refine hpassed.trans ?_
  have hcall := callsFrom_of_matchCall readers (matchCall_call key quote description after)
  rw [parseCall_callArguments readers hquote hkey] at hcall
  exact hcall

/-- The call is read back exactly if the description has no backslash before a quote or a backslash,
and no call starts in it. -/
theorem readBack_iff {key : List Char} (hkey : PlainKey key) {quote : Char} (hquote : quote ∈ quotes)
    (description : List Char) :
    ReadBack readers key quote description ↔ NoEscape description ∧ NoCall description := by
  constructor
  · intro h
    have hread := h [] [] fun later hlater => by rw [List.suffix_nil.1 hlater]; rfl
    have hnil : NoCall ([] : List Char) := fun later hlater => by rw [List.suffix_nil.1 hlater]; rfl
    rw [traverseNodeParameters, extractFromAICalls_call readers hkey hquote description [] hnil]
      at hread
    cases hcalls : callsFrom readers 0 (callArguments key quote description ++ []) with
    | error => rw [hcalls] at hread; cases hread
    | ok calls =>
      rw [hcalls] at hread
      injection hread with hread
      rw [List.cons.injEq, FromAIArgument.mk.injEq, Option.some.injEq] at hread
      obtain ⟨⟨-, hdescription, -⟩, rfl⟩ := hread
      refine ⟨(unescape_eq_self_iff description).1 hdescription, fun later hlater => ?_⟩
      have hno := (callsFrom_eq_nil_iff readers).1 hcalls
      cases later with
      | nil => rfl
      | cons c later =>
        have hsuffix : (c :: later).flatMap (escapeQuoted quote) ++ quote :: [')'] <:+
            callArguments key quote description ++ [] := by
          obtain ⟨passed, rfl⟩ := hlater
          rw [callArguments_append]
          exact ⟨'\'' :: (key.flatMap (escapeQuoted '\'') ++ '\'' :: ',' :: ' ' :: quote ::
            passed.flatMap (escapeQuoted quote)), by simp⟩
        have hnone := hno _ hsuffix
        rw [matchCall_written (writes_escapeQuoted hquote) (ends_quote hquote),
          Option.map_eq_none_iff] at hnone
        exact hnone
  · rintro ⟨hescape, hcall⟩ before after hbefore
    rw [traverseNodeParameters, extractFromAICalls_call readers hkey hquote description after hbefore,
      callsFrom_callArguments readers hkey hquote hcall, (unescape_eq_self_iff description).2 hescape]
    rfl

/-- A description with both quotes in it. -/
theorem readBack_apostrophe :
    ReadBack (⟨fun _ => none, fun _ => none⟩ : Readers ℕ) ['k'] '"'
      ['i', 't', '\'', 's', ' ', '"', 'a', '"'] :=
  (readBack_iff _ (by simp [PlainKey]) (by decide) _).2 ⟨by decide, by decide⟩

/-- `\'` in the description is taken for an escaped quote. -/
theorem not_readBack_backslash :
    ¬ ReadBack (⟨fun _ => none, fun _ => none⟩ : Readers ℕ) ['k'] '"' ['\\', '\''] := by
  intro h
  have hread := h [] [] (by decide)
  have hdescription := congrArg
    (fun calls => (calls.toOption.bind List.head?).bind FromAIArgument.description) hread
  exact absurd hdescription (by decide +kernel)

end N8n.FromAi
