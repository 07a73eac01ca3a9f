import Mathlib.Data.List.Pairwise
import N8n.DanglingToolCalls

/-!
# What is left of a history

An AI message goes with all its calls, but its answers stay. So a history is well formed afterwards
unless a message has been answered in part.
-/

namespace N8n.ToolCalls

/-- Some tool message answers the call. -/
def IsAnswered (messages : List BaseMessage) (call : ToolCall) : Prop :=
  ∃ id, call.id = some id ∧ id ∈ toolCallIds messages

/-- The message is removed. -/
def Dangles (messages : List BaseMessage) (m : BaseMessage) : Prop :=
  ∃ call ∈ m.toolCalls, ∃ id, call.id = some id ∧ id ≠ "" ∧ id ∉ toolCallIds messages

/-- All calls of a message are answered; or none is, and one of them has an id. -/
def AnsweredWhole (messages : List BaseMessage) (m : BaseMessage) : Prop :=
  (∀ call ∈ m.toolCalls, IsAnswered messages call) ∨
    (Dangles messages m ∧ ∀ call ∈ m.toolCalls, ¬ IsAnswered messages call)

variable {messages : List BaseMessage}

theorem isDangling_iff {ids : List String} {call : ToolCall} : isDangling ids call = true ↔
    ∃ id, call.id = some id ∧ id ≠ "" ∧ id ∉ ids := by
  unfold isDangling
  cases call.id with
  | none => simp
  | some id => simp

theorem mem_toolCallIds {id : String} :
    id ∈ toolCallIds messages ↔ ∃ tool ∈ messages, tool.answers = some id :=
  List.mem_filterMap

theorem isAnswered_iff {call : ToolCall} : IsAnswered messages call ↔
    ∃ tool ∈ messages, ∃ id, call.id = some id ∧ tool.answers = some id := by
  unfold IsAnswered
  simp only [mem_toolCallIds]
  constructor
  · rintro ⟨id, hid, tool, htool, hanswers⟩
    exact ⟨tool, htool, id, hid, hanswers⟩
  · rintro ⟨tool, htool, id, hid, hanswers⟩
    exact ⟨id, hid, tool, htool, hanswers⟩

/-- The message is not removed. -/
def isKept (messages : List BaseMessage) (m : BaseMessage) : Bool :=
  !m.toolCalls.any (isDangling (toolCallIds messages))

theorem isKept_iff {m : BaseMessage} : isKept messages m = true ↔ ¬ Dangles messages m := by
  rw [isKept, Bool.not_eq_true', ← Bool.not_eq_true, List.any_eq_true]
  exact not_congr (exists_congr fun call => and_congr_right fun _ => isDangling_iff)

/-! ## What is left -/

/-- With unique ids, the others stay. -/
theorem left_eq_filter (hids : (messages.map (·.id)).Nodup) :
    applyRemovals messages (cleanupDanglingToolCallMessages messages) =
      messages.filter (isKept messages) := by
  refine List.filter_congr fun m hm => ?_
  have hremoved : m.id ∈ cleanupDanglingToolCallMessages messages ↔
      m.toolCalls.any (isDangling (toolCallIds messages)) = true := by
    unfold cleanupDanglingToolCallMessages
    rw [List.mem_map]
    constructor
    · rintro ⟨m', hm', hid⟩
      obtain ⟨hmem, hdangling⟩ := List.mem_filter.1 hm'
      rwa [List.inj_on_of_nodup_map hids hmem hm hid] at hdangling
    · exact fun hdangling => ⟨m, List.mem_filter.2 ⟨hm, hdangling⟩, rfl⟩
  rw [decide_eq_decide.2 (not_congr hremoved), decide_not, Bool.decide_eq_true]
  rfl

theorem mem_left {m : BaseMessage} (hids : (messages.map (·.id)).Nodup) :
    m ∈ applyRemovals messages (cleanupDanglingToolCallMessages messages) ↔
      m ∈ messages ∧ ¬ Dangles messages m := by
  rw [left_eq_filter hids, List.mem_filter, isKept_iff]

theorem answers_eq_none {m : BaseMessage} {call : ToolCall} (h : call ∈ m.toolCalls) :
    m.answers = none := by
  unfold BaseMessage.toolCalls at h
  unfold BaseMessage.answers
  cases hkind : m.kind with
  | ai toolCalls => rfl
  | tool toolCallId =>
    rw [hkind] at h
    cases h
  | other => rfl

theorem not_dangles_of_answers {m : BaseMessage} {id : String} (h : m.answers = some id) :
    ¬ Dangles messages m := by
  rintro ⟨call, hcall, -⟩
  rw [answers_eq_none hcall] at h
  cases h

/-- Only one message makes a call. -/
theorem eq_of_call (h : History messages) {m m' : BaseMessage} {id : String}
    (hm : m ∈ messages) (hm' : m' ∈ messages) (hcall : ⟨some id⟩ ∈ m.toolCalls)
    (hcall' : ⟨some id⟩ ∈ m'.toolCalls) : m = m' := by
  by_contra hne
  have hnodup := h.callIds
  rw [List.filterMap_flatMap, List.nodup_flatMap] at hnodup
  have hsymm : Std.Symm (Function.onFun List.Disjoint fun m : BaseMessage =>
      m.toolCalls.filterMap (·.id)) := ⟨fun _ _ h _ ha ha' => h ha' ha⟩
  have hdisjoint := hnodup.2.forall hm hm' hne
  exact hdisjoint (List.mem_filterMap.2 ⟨_, hcall, rfl⟩) (List.mem_filterMap.2 ⟨_, hcall', rfl⟩)

theorem callsAnswered_left_iff (hids : (messages.map (·.id)).Nodup) :
    CallsAnswered (applyRemovals messages (cleanupDanglingToolCallMessages messages)) ↔
      ∀ m ∈ messages, ¬ Dangles messages m → ∀ call ∈ m.toolCalls, IsAnswered messages call := by
  unfold CallsAnswered
  constructor
  · intro h m hm hdangles call hcall
    obtain ⟨tool, htool, id, hid, hanswers⟩ := h m ((mem_left hids).2 ⟨hm, hdangles⟩) call hcall
    exact isAnswered_iff.2 ⟨tool, ((mem_left hids).1 htool).1, id, hid, hanswers⟩
  · intro h m hm call hcall
    obtain ⟨hm, hdangles⟩ := (mem_left hids).1 hm
    obtain ⟨tool, htool, id, hid, hanswers⟩ := isAnswered_iff.1 (h m hm hdangles call hcall)
    exact ⟨tool, (mem_left hids).2 ⟨htool, not_dangles_of_answers hanswers⟩, id, hid, hanswers⟩

/-- An answer stays, so the message that it answers has to. -/
theorem answersEarlier_left_iff (h : History messages) :
    AnswersEarlier (applyRemovals messages (cleanupDanglingToolCallMessages messages)) ↔
      ∀ m ∈ messages, Dangles messages m →
        ∀ call ∈ m.toolCalls, ¬ IsAnswered messages call := by
  rw [left_eq_filter h.ids]
  constructor
  · rintro hearlier m hm hdangles ⟨_⟩ hcall ⟨id, rfl, hid⟩
    obtain ⟨tool, htool, hanswers⟩ := mem_toolCallIds.1 hid
    have hkept : isKept messages tool = true := isKept_iff.2 (not_dangles_of_answers hanswers)
    obtain ⟨before, after, hsplit⟩ := List.append_of_mem (List.mem_filter.2 ⟨htool, hkept⟩)
    obtain ⟨ai, hai, hcall'⟩ := hearlier before tool after id hsplit hanswers
    have hleft : ai ∈ messages.filter (isKept messages) := by
      rw [hsplit]
      exact List.mem_append_left _ hai
    obtain ⟨hai, haiKept⟩ := List.mem_filter.1 hleft
    rw [eq_of_call h hm hai hcall hcall'] at hdangles
    exact isKept_iff.1 haiKept hdangles
  · intro hnone before tool after id hsplit hanswers
    obtain ⟨before', rest, hmessages, hbefore, hrest⟩ := List.filter_eq_append_iff.1 hsplit
    obtain ⟨skipped, after', rfl, hskipped, -, -⟩ := List.filter_eq_cons_iff.1 hrest
    rw [← List.append_assoc] at hmessages
    obtain ⟨ai, hai, hcall⟩ := h.answersEarlier _ tool after' id hmessages hanswers
    have htool : tool ∈ messages := by
      rw [hmessages]
      exact List.mem_append_right _ List.mem_cons_self
    have haiMem : ai ∈ messages := by
      rw [hmessages]
      exact List.mem_append_left _ hai
    have hkept : isKept messages ai = true := isKept_iff.2 fun hdangles =>
      hnone ai haiMem hdangles _ hcall ⟨id, rfl, mem_toolCallIds.2 ⟨tool, htool, hanswers⟩⟩
    refine ⟨ai, ?_, hcall⟩
    rcases List.mem_append.1 hai with hai | hai
    · rw [← hbefore]
      exact List.mem_filter.2 ⟨hai, hkept⟩
    · exact absurd hkept (hskipped ai hai)

/-! ## When it is well formed -/

/-- What is left is well formed just where no message has been answered in part. -/
theorem wellFormed_left_iff (messages : List BaseMessage) (h : History messages) :
    WellFormed (applyRemovals messages (cleanupDanglingToolCallMessages messages)) ↔
      ∀ m ∈ messages, AnsweredWhole messages m := by
  unfold WellFormed
  rw [callsAnswered_left_iff h.ids, answersEarlier_left_iff h]
  constructor
  · rintro ⟨hall, hnone⟩ m hm
    by_cases hdangles : Dangles messages m
    · exact .inr ⟨hdangles, hnone m hm hdangles⟩
    · exact .inl (hall m hm hdangles)
  · intro hwhole
    refine ⟨fun m hm hdangles => ?_, fun m hm hdangles => ?_⟩
    · exact (hwhole m hm).resolve_right fun h => hdangles h.1
    · rcases hwhole m hm with hall | ⟨-, hnone⟩
      · obtain ⟨call, hcall, id, hid, -, hnot⟩ := hdangles
        obtain ⟨id', hid', hmem⟩ := hall call hcall
        rw [hid] at hid'
        exact absurd (Option.some.inj hid' ▸ hmem) hnot
      · exact hnone

/-- An AI message with two calls. -/
def twoCalls : BaseMessage := ⟨"ai-1", .ai (some [⟨some "call-1"⟩, ⟨some "call-2"⟩])⟩

/-- Both calls are answered. -/
def answeredWhole : List BaseMessage :=
  [twoCalls, ⟨"tool-1", .tool "call-1"⟩, ⟨"tool-2", .tool "call-2"⟩]

/-- One of them is. -/
def answeredInPart : List BaseMessage := [twoCalls, ⟨"tool-1", .tool "call-1"⟩]

/-- The first message makes all calls. -/
theorem answersEarlier_of_first {ai : BaseMessage} {rest : List BaseMessage}
    (hai : ai.answers = none)
    (hrest : ∀ m ∈ rest, ∀ id ∈ m.answers, ⟨some id⟩ ∈ ai.toolCalls) :
    AnswersEarlier (ai :: rest) := by
  intro before m after id hsplit hanswers
  rcases before with _ | ⟨first, before⟩
  · rw [(List.cons.inj hsplit).1, hanswers] at hai
    cases hai
  · obtain ⟨rfl, rfl⟩ := List.cons.inj hsplit
    exact ⟨ai, List.mem_cons_self,
      hrest m (List.mem_append_right _ List.mem_cons_self) id hanswers⟩

theorem wellFormed_left_answeredWhole : History answeredWhole ∧
    WellFormed (applyRemovals answeredWhole (cleanupDanglingToolCallMessages answeredWhole)) := by
  have h : History answeredWhole :=
    ⟨by decide, by decide, answersEarlier_of_first rfl (by decide)⟩
  refine ⟨h, (wellFormed_left_iff answeredWhole h).2 fun m hm => .inl ?_⟩
  simp [answeredWhole] at hm
  rcases hm with rfl | rfl | rfl <;>
    simp [IsAnswered, answeredWhole, twoCalls, BaseMessage.toolCalls, toolCallIds,
      BaseMessage.answers]

/-- The AI message is removed, and the answer to one of its calls is left alone. -/
theorem not_wellFormed_left : History answeredInPart ∧
    ¬ WellFormed (applyRemovals answeredInPart
      (cleanupDanglingToolCallMessages answeredInPart)) := by
  refine ⟨⟨by decide, by decide, answersEarlier_of_first rfl (by decide)⟩, fun h => ?_⟩
  have hleft : applyRemovals answeredInPart (cleanupDanglingToolCallMessages answeredInPart) =
      [⟨"tool-1", .tool "call-1"⟩] := by
    decide
  obtain ⟨ai, hai, -⟩ := h.2 [] _ [] "call-1" hleft rfl
  cases hai

end N8n.ToolCalls
