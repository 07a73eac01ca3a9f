import N8n.Library.Fallible
import N8n.Library.Places
import N8n.StreamCapturer

/-!
# What a stream leaves

The messages of the aggregator are those the stream is made of, an open one still running. The
collection that `finalizeAll` walks is never filled, so a message is left running whenever the last
chunk of its key is neither an end nor an error.
-/

namespace N8n

/-! ## The chain of messages -/

/-- The id of the last message, else the one the chain starts at. -/
def lastId (previousMessageId : String) (ms : List AggregatedMessage) : String :=
  (ms.getLast?.map (·.id)).getD previousMessageId

theorem lastId_cons (p : String) (m : AggregatedMessage) (ms : List AggregatedMessage) :
    lastId p (m :: ms) = lastId m.id ms := by
  unfold lastId
  cases ms with
  | nil => rfl
  | cons m' ms => rw [List.getLast?_cons_cons, List.getLast?_eq_some_getLast (by simp)]; rfl

theorem linked_concat {m : AggregatedMessage} : ∀ {p : String} {ms : List AggregatedMessage},
    Linked p ms → m.previousMessageId = lastId p ms → Linked p (ms ++ [m])
  | _, [], _, hm => ⟨hm, trivial⟩
  | _, _ :: _, h, hm => ⟨h.1, linked_concat h.2 (by rw [hm, lastId_cons])⟩

theorem linked_modify {f : AggregatedMessage → AggregatedMessage} (hid : ∀ m, (f m).id = m.id)
    (hprevious : ∀ m, (f m).previousMessageId = m.previousMessageId) :
    ∀ {p : String} {ms : List AggregatedMessage} (i : ℕ), Linked p ms → Linked p (ms.modify i f)
  | _, [], i, _ => by simp [Linked]
  | _, m :: ms, 0, h => by
    rw [List.modify_zero_cons]
    exact ⟨(hprevious m).trans h.1, by rw [hid]; exact h.2⟩
  | _, m :: ms, i + 1, h => by
    rw [List.modify_succ_cons]
    exact ⟨h.1, linked_modify hid hprevious i h.2⟩

theorem lastId_modify {f : AggregatedMessage → AggregatedMessage} (hid : ∀ m, (f m).id = m.id)
    (p : String) (ms : List AggregatedMessage) (i : ℕ) : lastId p (ms.modify i f) = lastId p ms := by
  unfold lastId
  rw [List.getLast?_eq_getElem?, List.getLast?_eq_getElem?, List.length_modify, List.getElem?_modify]
  split_ifs
  · cases ms[ms.length - 1]? with
    | none => rfl
    | some m => simp [hid]
  · simp

/-! ## Chunks of one message -/

/-- The status a chunk leaves its message in. -/
def ChunkType.status : ChunkType → ChatHubMessageStatus
  | .end => .success
  | .error => .error
  | _ => .running

def AggregatedMessage.view (m : AggregatedMessage) : String × ChatHubMessageStatus :=
  (m.content, m.status)

namespace MessageChunks

variable {m : MessageChunks} {c : StructuredChunk}

/-- The status of a message, which is running as long as it is open. -/
def status (m : MessageChunks) : ChatHubMessageStatus :=
  (m.chunks.getLast?.map (·.type.status)).getD .running

def view (m : MessageChunks) : String × ChatHubMessageStatus := (m.content, m.status)

def add (m : MessageChunks) (c : StructuredChunk) : MessageChunks :=
  { m with chunks := m.chunks ++ [c] }

theorem errorText_of_isOpen (h : m.isOpen = true) : m.errorText = none := by
  unfold errorText
  unfold isOpen at h
  cases hlast : m.chunks.getLast? with
  | none => rfl
  | some c =>
    rw [hlast, Option.all_some] at h
    have hne : c.type ≠ .error := by
      intro heq
      simp [heq, ChunkType.closes] at h
    simp [hne]

theorem content_of_isOpen (h : m.isOpen = true) : m.content = m.items := by
  unfold content
  rw [errorText_of_isOpen h]
  rfl

theorem status_of_isOpen (h : m.isOpen = true) : m.status = .running := by
  unfold status
  unfold isOpen at h
  cases hlast : m.chunks.getLast? with
  | none => rfl
  | some c =>
    rw [hlast, Option.all_some] at h
    cases htype : c.type <;> simp_all [ChunkType.closes, ChunkType.status]

theorem items_add : (m.add c).items = m.items ++ itemText c := by
  unfold items add
  simp [List.foldl_append]

theorem isOpen_add : (m.add c).isOpen = !c.type.closes := by
  simp [isOpen, add]

theorem status_add : (m.add c).status = c.type.status := by
  unfold status add
  rw [List.getLast?_concat]
  rfl

theorem content_add : (m.add c).content =
    match c.type with
    | .error => c.content.elim m.items (withError m.items)
    | _ => m.items ++ itemText c := by
  unfold content
  rw [items_add]
  unfold errorText add
  rw [List.getLast?_concat]
  cases htype : c.type <;> simp [htype, itemText]

end MessageChunks

/-! ## The aggregator against the stream -/

namespace StructuredChunkAggregator

variable {uuidv4 : ℕ → String} {p : String} {s : StructuredChunkAggregator}
  {ms : List MessageChunks}

/-- The messages are those of the stream, and the open ones are found by their keys. -/
structure Corresponds (p : String) (s : StructuredChunkAggregator) (ms : List MessageChunks) :
    Prop where
  view : ∀ i : ℕ, s.messages[i]?.map AggregatedMessage.view = ms[i]?.map MessageChunks.view
  opened : ∀ key (i : ℕ), s.activeByKey.get? key = some i ↔
    ∃ m, ms[i]? = some m ∧ m.key = key ∧ m.isOpen = true
  linked : Linked p s.messages
  previous : s.previousMessageId = lastId p s.messages
  inactive : s.active = .empty

theorem Corresponds.length_eq (h : s.Corresponds p ms) : s.messages.length = ms.length := by
  have hview := h.view
  apply Nat.le_antisymm
  · have hlast := hview ms.length
    rw [List.getElem?_eq_none (Nat.le_refl _), Option.map_none, Option.map_eq_none_iff] at hlast
    exact List.getElem?_eq_none_iff.1 hlast
  · have hlast := hview s.messages.length
    rw [List.getElem?_eq_none (Nat.le_refl _), Option.map_none, eq_comm, Option.map_eq_none_iff] at hlast
    exact List.getElem?_eq_none_iff.1 hlast

/-- The map finds the message that is open for the key. -/
theorem Corresponds.findIdx?_eq (h : s.Corresponds p ms) (key : MessageKey) :
    (ms.findIdx? fun m => m.key = key ∧ m.isOpen) = s.activeByKey.get? key := by
  cases hidx : ms.findIdx? fun m => m.key = key ∧ m.isOpen with
  | some i =>
    obtain ⟨hlt, hopen, -⟩ := List.findIdx?_eq_some_iff_getElem.1 hidx
    simp only [Bool.decide_and, Bool.decide_eq_true, Bool.and_eq_true, decide_eq_true_eq] at hopen
    exact ((h.opened key i).2 ⟨ms[i], List.getElem?_eq_getElem hlt, hopen⟩).symm
  | none =>
    refine (Option.eq_none_iff_forall_ne_some.2 fun i hi => ?_).symm
    obtain ⟨m, hm, hopen⟩ := (h.opened key i).1 hi
    have hnot := List.findIdx?_eq_none_iff.1 hidx m (List.mem_of_getElem? hm)
    simp [hopen] at hnot

/-- Beginning a message, on both sides. -/
theorem Corresponds.startKey (h : s.Corresponds p ms) {key : MessageKey}
    (hnone : s.activeByKey.get? key = none) (now : ℕ) :
    (s.startKey uuidv4 key now).1.Corresponds p (ms ++ [{ key := key }]) := by
  have hlength := h.length_eq
  refine ⟨fun i => ?_, fun key' i => ?_, linked_concat h.linked h.previous, ?_, h.inactive⟩
  · rcases Nat.lt_trichotomy i ms.length with hlt | rfl | hlt
    · change (s.messages ++ [_])[i]?.map _ = _
      rw [List.getElem?_append_left (by omega), List.getElem?_append_left hlt]
      exact h.view i
    · change (s.messages ++ [_])[ms.length]?.map _ = _
      rw [← hlength, List.getElem?_concat_length, hlength, List.getElem?_concat_length]
      rfl
    · change (s.messages ++ [_])[i]?.map _ = _
      rw [List.getElem?_eq_none (by simp; omega), List.getElem?_eq_none (by simp; omega)]
      rfl
  · change (s.activeByKey.set key s.messages.length).get? key' = some i ↔ _
    rw [Dict.get?_set]
    split_ifs with heq
    · subst heq
      constructor
      · intro hi
        rw [← Option.some.inj hi, hlength]
        exact ⟨_, List.getElem?_concat_length, rfl, rfl⟩
      · rintro ⟨m, hm, hkey, hopen⟩
        rcases Places.getElem?_concat_eq_some.1 hm with hm | ⟨rfl, -⟩
        · rw [(h.opened key' i).2 ⟨m, hm, hkey, hopen⟩] at hnone
          cases hnone
        · rw [hlength]
    · rw [h.opened]
      constructor
      · rintro ⟨m, hm, hopen⟩
        exact ⟨m, Places.getElem?_concat_of_some hm _, hopen⟩
      · rintro ⟨m, hm, hkey, hopen⟩
        rcases Places.getElem?_concat_eq_some.1 hm with hm | ⟨-, rfl⟩
        · exact ⟨m, hm, hkey, hopen⟩
        · exact absurd hkey.symm heq
  · change uuidv4 s.messages.length = lastId _ (s.messages ++ [_])
    unfold lastId
    rw [List.getLast?_concat]
    rfl

variable (uuidv4) in
theorem Corresponds.ensure (h : s.Corresponds p ms) (key : MessageKey) (now : ℕ) :
    (s.ensureMessage uuidv4 key now).1.Corresponds p (MessageChunks.ensure ms key).1 ∧
      (s.ensureMessage uuidv4 key now).2 = (MessageChunks.ensure ms key).2 ∧
      ∃ m, (MessageChunks.ensure ms key).1[(MessageChunks.ensure ms key).2]? = some m ∧
        m.key = key ∧ m.isOpen = true := by
  unfold ensureMessage MessageChunks.ensure
  rw [h.findIdx?_eq key]
  cases hkey : s.activeByKey.get? key with
  | some i => exact ⟨h, rfl, (h.opened key i).1 hkey⟩
  | none => exact ⟨h.startKey hkey now, h.length_eq, _, List.getElem?_concat_length, rfl, rfl⟩

/-! ## One chunk -/

/-- What a chunk does to its message. -/
def apply (now : ℕ) (c : StructuredChunk) (m : AggregatedMessage) : AggregatedMessage :=
  match c.type with
  | .begin => m
  | .item => { m with content := m.content ++ c.content.getD "" }
  | .end => { m with status := .success, updatedAt := now }
  | .error => { m with
      status := .error
      updatedAt := now
      content := c.content.elim m.content (MessageChunks.withError m.content) }

def settle (s : StructuredChunkAggregator) (c : StructuredChunk) : StructuredChunkAggregator :=
  if c.type.closes then { s with activeByKey := s.activeByKey.erase c.key } else s

/-- A chunk that is accepted is for the message of its key. -/
theorem ingest_eq_ok {now : ℕ} {c : StructuredChunk} {r : StructuredChunkAggregator × ℕ}
    (h : s.ingest uuidv4 now c = .ok r) :
    r.1 = ((s.ensureMessage uuidv4 c.key now).1.update (s.ensureMessage uuidv4 c.key now).2
      (apply now c)).settle c := by
  unfold ingest at h
  cases htype : c.type with
  | begin =>
    simp only [htype] at h
    split_ifs at h with hnone
    obtain rfl := Except.ok.inj h
    have hnone : s.activeByKey.get? c.key = none := not_not.1 hnone
    have happly : apply now c = id := by
      funext m
      simp [apply, htype]
    simp only [settle, htype, ChunkType.closes, ensureMessage, hnone, update, happly]
    simp
  | item =>
    simp only [htype] at h
    have hsettle : ∀ s : StructuredChunkAggregator, s.settle c = s := fun s => by
      simp [settle, htype, ChunkType.closes]
    rw [hsettle]
    cases hcontent : c.content with
    | none =>
      simp only [hcontent] at h
      obtain rfl := Except.ok.inj h
      have happly : apply now c = id := by
        funext m
        simp [apply, htype, hcontent]
      simp [update, happly]
    | some content =>
      simp only [hcontent] at h
      obtain rfl := Except.ok.inj h
      have happly : apply now c = fun m => { m with content := m.content ++ content } := by
        funext m
        simp [apply, htype, hcontent]
      rw [happly]
  | «end» =>
    simp only [htype] at h
    obtain rfl := Except.ok.inj h
    have happly : apply now c = fun m => { m with status := .success, updatedAt := now } := by
      funext m
      simp [apply, htype]
    simp [settle, htype, ChunkType.closes, happly]
  | error =>
    simp only [htype] at h
    obtain rfl := Except.ok.inj h
    cases hcontent : c.content with
    | none =>
      have happly : apply now c = fun m => { m with status := .error, updatedAt := now } := by
        funext m
        simp [apply, htype, hcontent]
      simp [settle, htype, ChunkType.closes, happly]
    | some content =>
      have happly : apply now c = (fun m : AggregatedMessage =>
          { m with content := MessageChunks.withError m.content content }) ∘
          fun m => { m with status := .error, updatedAt := now } := by
        funext m
        simp [apply, htype, hcontent]
      simp only [settle, htype, ChunkType.closes, happly, update, ↓reduceIte]
      rw [List.modify_modify_eq]
      rfl

theorem get?_settle (i now : ℕ) (c : StructuredChunk) (key : MessageKey) :
    ((s.update i (apply now c)).settle c).activeByKey.get? key =
      if c.type.closes ∧ key = c.key then none else s.activeByKey.get? key := by
  unfold settle
  split_ifs with hcloses heq heq
  · rw [heq.2]
    exact Dict.get?_erase_self _ _
  · exact Dict.get?_erase_of_ne _ fun hne => heq ⟨hcloses, hne⟩
  · exact absurd heq.1 hcloses
  · rfl

theorem view_apply {now : ℕ} {c : StructuredChunk} {a : AggregatedMessage} {m : MessageChunks}
    (hview : a.view = m.view) (hopen : m.isOpen = true) :
    (apply now c a).view = (m.add c).view := by
  obtain ⟨hcontent, hstatus⟩ := Prod.mk.inj hview
  rw [MessageChunks.content_of_isOpen hopen] at hcontent
  rw [MessageChunks.status_of_isOpen hopen] at hstatus
  unfold AggregatedMessage.view MessageChunks.view
  rw [MessageChunks.content_add, MessageChunks.status_add]
  cases htype : c.type <;>
    simp [apply, htype, hcontent, hstatus, ChunkType.status, MessageChunks.itemText]

theorem id_apply (now : ℕ) (c : StructuredChunk) (m : AggregatedMessage) :
    (apply now c m).id = m.id ∧ (apply now c m).previousMessageId = m.previousMessageId := by
  unfold apply
  cases c.type <;> exact ⟨rfl, rfl⟩

/-- The message of the chunk is changed, and closed by an end or an error. -/
theorem Corresponds.add (h : s.Corresponds p ms) {i : ℕ} {m : MessageChunks} (hm : ms[i]? = some m)
    (hopen : m.isOpen = true) (now : ℕ) {c : StructuredChunk} (hkey : m.key = c.key) :
    ((s.update i (apply now c)).settle c).Corresponds p (ms.modify i fun m => m.add c) := by
  have hmessages : ((s.update i (apply now c)).settle c).messages =
      s.messages.modify i (apply now c) := by
    unfold settle
    split_ifs <;> rfl
  have hkept : ((s.update i (apply now c)).settle c).previousMessageId = s.previousMessageId ∧
      ((s.update i (apply now c)).settle c).active = s.active := by
    unfold settle
    split_ifs <;> exact ⟨rfl, rfl⟩
  have hindex := (h.opened c.key i).2 ⟨m, hm, hkey, hopen⟩
  refine ⟨fun j => ?_, fun key j => ?_, ?_, ?_, hkept.2.trans h.inactive⟩
  · rw [hmessages, List.getElem?_modify, List.getElem?_modify]
    have hview := h.view j
    by_cases hij : i = j
    · subst hij
      rw [hm] at hview ⊢
      obtain ⟨a, ha, hview⟩ := Option.map_eq_some_iff.1 hview
      simp [ha, view_apply hview hopen]
    · simpa [hij] using hview
  · rw [get?_settle, List.getElem?_modify]
    by_cases hij : i = j
    · subst hij
      rw [hm]
      simp only [↓reduceIte, Option.map_eq_map, Option.map_some, Option.some.injEq,
        exists_eq_left', MessageChunks.isOpen_add]
      by_cases hsame : key = c.key
      · subst hsame
        cases hcloses : c.type.closes with
        | true => simp
        | false => simpa [hindex, MessageChunks.add] using hkey
      · have hne : s.activeByKey.get? key ≠ some i := by
          intro hget
          obtain ⟨m', hm', hkey', -⟩ := (h.opened key i).1 hget
          obtain rfl := Option.some.inj (hm.symm.trans hm')
          exact hsame (hkey'.symm.trans hkey)
        simp only [hsame, and_false, ↓reduceIte]
        exact ⟨fun hget => absurd hget hne, fun hadd => absurd (hadd.1.symm.trans hkey) hsame⟩
    · simp only [hij, ↓reduceIte, id_map']
      by_cases hboth : c.type.closes ∧ key = c.key
      · rw [if_pos hboth]
        refine ⟨fun hget => (by cases hget), fun hj => ?_⟩
        have hget := (h.opened key j).2 hj
        rw [hboth.2, hindex] at hget
        exact absurd (Option.some.inj hget) hij
      · rw [if_neg hboth]
        exact h.opened key j
  · rw [hmessages]
    exact linked_modify (fun a => (id_apply now c a).1) (fun a => (id_apply now c a).2) i h.linked
  · rw [hmessages, hkept.1, lastId_modify fun a => (id_apply now c a).1]
    exact h.previous

theorem Corresponds.ingest (h : s.Corresponds p ms) {now : ℕ} {c : StructuredChunk}
    {r : StructuredChunkAggregator × ℕ} (hr : s.ingest uuidv4 now c = .ok r) :
    r.1.Corresponds p (MessageChunks.receive ms c) := by
  obtain ⟨hensure, hindex, m, hm, hkey, hopen⟩ := h.ensure uuidv4 c.key now
  rw [ingest_eq_ok hr, hindex]
  exact hensure.add hm hopen now hkey

/-! ## The whole stream -/

theorem Corresponds.ingestAll : ∀ {chunks : List (ℕ × StructuredChunk)}
    {s s' : StructuredChunkAggregator} {ms : List MessageChunks}, s.Corresponds p ms →
    s.ingestAll uuidv4 chunks = .ok s' →
      s'.Corresponds p ((chunks.map (·.2)).foldl MessageChunks.receive ms)
  | [], _, _, _, h, hrun => by
    obtain rfl := Except.ok.inj hrun
    exact h
  | c :: chunks, s, s', ms, h, hrun => by
    unfold StructuredChunkAggregator.ingestAll at hrun
    rw [List.foldlM_cons] at hrun
    obtain ⟨s₁, hs₁, hrun⟩ := Fallible.bind_eq_ok.1 hrun
    cases hr : s.ingest uuidv4 c.1 c.2 with
    | error e =>
      rw [hr] at hs₁
      cases hs₁
    | ok r =>
      rw [hr] at hs₁
      obtain rfl := Except.ok.inj hs₁
      exact (h.ingest hr).ingestAll hrun

/-! ## What is open at the end -/

theorem get?_ensureMessage (key key' : MessageKey) (now : ℕ) :
    (s.ensureMessage uuidv4 key now).1.activeByKey.get? key' = none ↔
      key' ≠ key ∧ s.activeByKey.get? key' = none := by
  unfold ensureMessage
  cases hkey : s.activeByKey.get? key with
  | some i =>
    refine ⟨fun h => ⟨fun heq => ?_, h⟩, fun h => h.2⟩
    rw [heq] at h
    exact Option.some_ne_none i (hkey.symm.trans h)
  | none =>
    change (s.activeByKey.set key s.messages.length).get? key' = none ↔ _
    rw [Dict.get?_set]
    split_ifs with heq <;> simp [heq]

theorem get?_ingest {now : ℕ} {c : StructuredChunk} {r : StructuredChunkAggregator × ℕ}
    (hr : s.ingest uuidv4 now c = .ok r) (key : MessageKey) :
    r.1.activeByKey.get? key = none ↔
      if c.key = key then c.type.closes = true else s.activeByKey.get? key = none := by
  rw [ingest_eq_ok hr, get?_settle]
  by_cases hkey : c.key = key
  · subst hkey
    simp [get?_ensureMessage]
  · rw [if_neg fun h => hkey h.2.symm, get?_ensureMessage, if_neg hkey]
    exact and_iff_right fun heq => hkey heq.symm

def lastOf (key : MessageKey) (chunks : List StructuredChunk) : Option StructuredChunk :=
  (chunks.filter (·.key = key)).getLast?

theorem lastOf_cons (key : MessageKey) (c : StructuredChunk) (chunks : List StructuredChunk) :
    lastOf key (c :: chunks) = (lastOf key chunks).or (if c.key = key then some c else none) := by
  unfold lastOf
  rw [List.filter_cons]
  split_ifs with hkey hkey' hkey'
  · rw [List.getLast?_cons]
    cases (chunks.filter (·.key = key)).getLast? <;> rfl
  · exact absurd (of_decide_eq_true hkey) hkey'
  · exact absurd (decide_eq_true hkey') hkey
  · rw [Option.or_none]

theorem exists_lastOf {c : StructuredChunk} {chunks : List StructuredChunk} (h : c ∈ chunks) :
    ∃ d, lastOf c.key chunks = some d := by
  have hmem : c ∈ chunks.filter (·.key = c.key) := List.mem_filter.2 ⟨h, by simp⟩
  exact ⟨_, List.getLast?_eq_some_getLast (List.ne_nil_of_mem hmem)⟩

theorem get?_ingestAll (key : MessageKey) : ∀ {chunks : List (ℕ × StructuredChunk)}
    {s s' : StructuredChunkAggregator}, s.ingestAll uuidv4 chunks = .ok s' →
      (s'.activeByKey.get? key = none ↔
        match lastOf key (chunks.map (·.2)) with
        | some c => c.type.closes = true
        | none => s.activeByKey.get? key = none)
  | [], _, _, hrun => by
    obtain rfl := Except.ok.inj hrun
    rfl
  | c :: chunks, s, s', hrun => by
    unfold ingestAll at hrun
    rw [List.foldlM_cons] at hrun
    obtain ⟨s₁, hs₁, hrun⟩ := Fallible.bind_eq_ok.1 hrun
    cases hr : s.ingest uuidv4 c.1 c.2 with
    | error e =>
      rw [hr] at hs₁
      cases hs₁
    | ok r =>
      rw [hr] at hs₁
      obtain rfl := Except.ok.inj hs₁
      have hfirst := get?_ingest hr key
      rw [get?_ingestAll key hrun, List.map_cons, lastOf_cons]
      cases lastOf key (chunks.map (·.2)) with
      | some d => rfl
      | none =>
        rw [Option.none_or]
        split_ifs at hfirst ⊢ <;> exact hfirst

theorem corresponds_new (initialPreviousMessageId : String) (retryOfMessageId : Option String) :
    Corresponds initialPreviousMessageId { initialPreviousMessageId, retryOfMessageId } [] :=
  ⟨fun _ => rfl, fun _ _ => ⟨fun h => (by cases h), fun ⟨_, h, _⟩ => (by cases h)⟩, trivial, rfl,
    rfl⟩

/-- Nothing is ever found to finalize. -/
theorem Corresponds.finalizeAll (h : s.Corresponds p ms) (now : ℕ) : s.finalizeAll now = s := by
  unfold StructuredChunkAggregator.finalizeAll
  rw [h.inactive]
  cases s
  cases h.inactive
  rfl

theorem Corresponds.terminal (h : s.Corresponds p ms)
    (hclosed : ∀ key, s.activeByKey.get? key = none) : ∀ m ∈ s.messages,
    m.status = .success ∨ m.status = .error ∨ m.status = .cancelled := by
  intro a ha
  obtain ⟨i, hi⟩ := List.mem_iff_getElem?.1 ha
  have hview := h.view i
  rw [hi, Option.map_some] at hview
  obtain ⟨m, hm, hview⟩ := Option.map_eq_some_iff.1 hview.symm
  have hstatus : m.status = a.status := (Prod.mk.inj hview).2
  have hopen : m.isOpen ≠ true := by
    intro hopen
    have hget := (h.opened m.key i).2 ⟨m, hm, rfl, hopen⟩
    rw [hclosed] at hget
    cases hget
  rw [← hstatus]
  unfold MessageChunks.status
  unfold MessageChunks.isOpen at hopen
  cases hlast : m.chunks.getLast? with
  | none => simp [hlast] at hopen
  | some c => cases htype : c.type <;> simp_all [ChunkType.closes, ChunkType.status]

/-- A stream leaves its messages terminal exactly when the last chunk of each key is an end or an
error; their contents and links are right in any case. -/
theorem streamed_iff {uuidv4 : ℕ → String} {initialPreviousMessageId : String}
    {retryOfMessageId : Option String} {chunks : List (ℕ × StructuredChunk)}
    {s : StructuredChunkAggregator}
    (hrun : ingestAll uuidv4 { initialPreviousMessageId, retryOfMessageId } chunks = .ok s)
    (now : ℕ) :
    Streamed initialPreviousMessageId (chunks.map (·.2)) (s.finalizeAll now) ↔
      Ended (chunks.map (·.2)) := by
  have h := (corresponds_new initialPreviousMessageId retryOfMessageId).ingestAll hrun
  rw [h.finalizeAll]
  constructor
  · intro hs c hc
    obtain ⟨d, hlast⟩ := exists_lastOf hc
    rw [← lastOf, hlast, Option.any_some]
    by_contra hopen
    have hget : s.activeByKey.get? c.key ≠ none := by
      rw [ne_eq, get?_ingestAll c.key hrun, hlast]
      exact hopen
    obtain ⟨i, hi⟩ := Option.ne_none_iff_exists'.1 hget
    obtain ⟨m, hm, -, hopen⟩ := (h.opened c.key i).1 hi
    have hview := h.view i
    rw [hm, Option.map_some] at hview
    obtain ⟨a, ha, hview⟩ := Option.map_eq_some_iff.1 hview
    have hrunning : a.status = .running :=
      (Prod.mk.inj hview).2.trans (MessageChunks.status_of_isOpen hopen)
    have hterminal := hs.terminal a (List.mem_of_getElem? ha)
    simp [hrunning] at hterminal
  · intro hended
    have hclosed : ∀ key, s.activeByKey.get? key = none := by
      intro key
      rw [get?_ingestAll key hrun]
      cases hlast : lastOf key (chunks.map (·.2)) with
      | none => rfl
      | some c =>
        obtain ⟨hc, hkey⟩ := List.mem_filter.1 (List.mem_of_getLast? hlast)
        obtain rfl : c.key = key := of_decide_eq_true hkey
        have hcloses := hended c hc
        rwa [← lastOf, hlast, Option.any_some] at hcloses
    refine ⟨h.terminal hclosed, List.ext_getElem? fun i => ?_, ?_⟩
    · have hview := congrArg (Option.map Prod.fst) (h.view i)
      simpa [AggregatedMessage.view, MessageChunks.view, MessageChunks.ofStream,
        Function.comp_def] using hview
    · exact h.linked

/-- Two node runs stream in turns, and both end. -/
def twoRuns : List (ℕ × StructuredChunk) :=
  [(0, ⟨.begin, none, ⟨"n", 0, 0⟩⟩), (1, ⟨.item, some "a", ⟨"n", 1, 0⟩⟩),
    (2, ⟨.end, none, ⟨"n", 0, 0⟩⟩), (3, ⟨.error, some "b", ⟨"n", 1, 0⟩⟩)]

theorem streamed_two_runs : ∃ s, ingestAll toString
      { initialPreviousMessageId := "m", retryOfMessageId := none } twoRuns = .ok s ∧
    Streamed "m" (twoRuns.map (·.2)) (s.finalizeAll 4) :=
  ⟨_, rfl, (streamed_iff rfl 4).2 (by decide)⟩

/-- The stream is cut off after a begin. -/
theorem cut_off_stays_running : ¬ ∀ s, ingestAll toString
    { initialPreviousMessageId := "m", retryOfMessageId := none }
    [(0, ⟨.begin, none, ⟨"n", 0, 0⟩⟩)] = .ok s →
    Streamed "m" [⟨.begin, none, ⟨"n", 0, 0⟩⟩] (s.finalizeAll 1) := by
  intro h
  have hmessage := (h _ rfl).terminal ⟨"0", "m", none, "", 0, 0, .running⟩ List.mem_cons_self
  revert hmessage
  decide

end StructuredChunkAggregator

end N8n
