import Mathlib.Data.List.Nodup

/-!
# Dangling tool calls

The messages of a session, as far as they are about tool calls: AI messages that make calls, and
tool messages that answer them.
-/

namespace N8n.ToolCalls

/-- A call may come without an id. -/
structure ToolCall where
  id : Option String
  deriving DecidableEq, Repr

inductive MessageKind
  | ai (toolCalls : Option (List ToolCall))
  | tool (toolCallId : String)
  | other
  deriving DecidableEq, Repr

structure BaseMessage where
  id : String
  kind : MessageKind
  deriving DecidableEq, Repr

namespace BaseMessage

/-- The calls of an AI message. -/
def toolCalls (m : BaseMessage) : List ToolCall :=
  match m.kind with
  | .ai toolCalls => toolCalls.getD []
  | _ => []

/-- The id of the call that a tool message answers. -/
def answers (m : BaseMessage) : Option String :=
  match m.kind with
  | .tool toolCallId => some toolCallId
  | _ => none

end BaseMessage

/-! ## Cleaning up -/

/-- The ids of the calls that tool messages answer. -/
def toolCallIds (messages : List BaseMessage) : List String := messages.filterMap (·.answers)

/-- `id && !toolCallIds.has(id)` -/
def isDangling (toolCallIds : List String) (call : ToolCall) : Bool :=
  match call.id with
  | none => false
  | some id => id ≠ "" && id ∉ toolCallIds

/-- The ids of the messages that are to be removed. -/
def cleanupDanglingToolCallMessages (messages : List BaseMessage) : List String :=
  let toolCallIds := toolCallIds messages
  let danglingToolCalls := messages.filter fun m => m.toolCalls.any (isDangling toolCallIds)
  danglingToolCalls.map (·.id)

/-- What is left after the removals. -/
def applyRemovals (messages : List BaseMessage) (removals : List String) : List BaseMessage :=
  messages.filter fun m => m.id ∉ removals

/-! ## What a history should be -/

/-- Every tool message answers a call of an earlier AI message. -/
def AnswersEarlier (messages : List BaseMessage) : Prop :=
  ∀ before m after id, messages = before ++ m :: after → m.answers = some id →
    ∃ ai ∈ before, ⟨some id⟩ ∈ ai.toolCalls

/-- Every call of an AI message is answered. -/
def CallsAnswered (messages : List BaseMessage) : Prop :=
  ∀ m ∈ messages, ∀ call ∈ m.toolCalls, ∃ tool ∈ messages, ∃ id,
    call.id = some id ∧ tool.answers = some id

/-- The ids of messages and of calls are unique, and answers come after calls. -/
structure History (messages : List BaseMessage) : Prop where
  ids : (messages.map (·.id)).Nodup
  callIds : ((messages.flatMap (·.toolCalls)).filterMap (·.id)).Nodup
  answersEarlier : AnswersEarlier messages

def WellFormed (messages : List BaseMessage) : Prop :=
  CallsAnswered messages ∧ AnswersEarlier messages

end N8n.ToolCalls
