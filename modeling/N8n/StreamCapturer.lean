import N8n.Library.Dict

/-!
# Streamed chat messages

A chat workflow streams its messages in chunks, those of several node runs and items in turns. The
aggregator keeps the message that is open for each of them. A message is an object that is changed in
place, here named by its place in the order in which the messages have been begun.
-/

namespace N8n

inductive ChunkType
  | begin | item | «end» | error
  deriving DecidableEq, Repr

structure ChunkMetadata where
  nodeId : String
  runIndex : ℕ
  itemIndex : ℕ
  deriving DecidableEq, Repr

structure StructuredChunk where
  type : ChunkType
  content : Option String := none
  metadata : ChunkMetadata
  deriving DecidableEq, Repr

abbrev MessageKey := String

def keyOf (m : ChunkMetadata) : MessageKey :=
  m.nodeId ++ "|" ++ toString m.runIndex ++ "|" ++ toString m.itemIndex

def StructuredChunk.key (chunk : StructuredChunk) : MessageKey := keyOf chunk.metadata

inductive ChatHubMessageStatus
  | success | error | running | cancelled
  deriving DecidableEq, Repr

structure AggregatedMessage where
  id : String
  previousMessageId : String
  retryOfMessageId : Option String
  content : String := ""
  createdAt : ℕ
  updatedAt : ℕ
  status : ChatHubMessageStatus := .running
  deriving DecidableEq, Repr

structure StructuredChunkAggregator where
  initialPreviousMessageId : String
  retryOfMessageId : Option String
  active : Dict MessageKey ℕ := .empty
  activeByKey : Dict MessageKey ℕ := .empty
  previousMessageId : String := initialPreviousMessageId
  /-- The messages that have been begun. -/
  messages : List AggregatedMessage := []

namespace StructuredChunkAggregator

-- the id that each call of `uuidv4` returns
variable (uuidv4 : ℕ → String)

variable (s : StructuredChunkAggregator)

def update (i : ℕ) (f : AggregatedMessage → AggregatedMessage) : StructuredChunkAggregator :=
  { s with messages := s.messages.modify i f }

/-- The new message is the last. -/
def startNew (now : ℕ) : StructuredChunkAggregator :=
  let message : AggregatedMessage := {
    id := uuidv4 s.messages.length
    previousMessageId := s.previousMessageId
    retryOfMessageId :=
      if s.previousMessageId = s.initialPreviousMessageId then s.retryOfMessageId else none
    createdAt := now
    updatedAt := now }
  { s with previousMessageId := message.id, messages := s.messages ++ [message] }

/-- A new message for the key, and its place. -/
def startKey (key : MessageKey) (now : ℕ) : StructuredChunkAggregator × ℕ :=
  let i := s.messages.length
  let s := s.startNew uuidv4 now
  ({ s with activeByKey := s.activeByKey.set key i }, i)

def ensureMessage (key : MessageKey) (now : ℕ) : StructuredChunkAggregator × ℕ :=
  match s.activeByKey.get? key with
  | some i => (s, i)
  | none => s.startKey uuidv4 key now

def ingest (now : ℕ) (chunk : StructuredChunk) : Except String (StructuredChunkAggregator × ℕ) :=
  let key := chunk.key
  match chunk.type with
  | .begin =>
    if s.activeByKey.get? key ≠ none then .error ("Duplicate begin for key " ++ key)
    else .ok (s.startKey uuidv4 key now)
  | .item =>
    let (s, i) := s.ensureMessage uuidv4 key now
    match chunk.content with
    | some content => .ok (s.update i fun m => { m with content := m.content ++ content }, i)
    | none => .ok (s, i)
  | .end =>
    let (s, i) := s.ensureMessage uuidv4 key now
    let s := s.update i fun m => { m with status := .success, updatedAt := now }
    .ok ({ s with activeByKey := s.activeByKey.erase key }, i)
  | .error =>
    let (s, i) := s.ensureMessage uuidv4 key now
    let s := s.update i fun m => { m with status := .error, updatedAt := now }
    let s := match chunk.content with
      | some content => s.update i fun m =>
          { m with content := (if m.content ≠ "" then m.content ++ "\n\n" else "") ++ content }
      | none => s
    .ok ({ s with activeByKey := s.activeByKey.erase key }, i)

def finalizeAll (now : ℕ) : StructuredChunkAggregator :=
  let s' := s.active.entries.foldl
    (fun s e => s.update e.2 fun m => { m with status := .cancelled, updatedAt := now }) s
  { s' with active := .empty }

/-- The chunks come one by one, each with its time. -/
def ingestAll (chunks : List (ℕ × StructuredChunk)) : Except String StructuredChunkAggregator :=
  chunks.foldlM (fun s c => (s.ingest uuidv4 c.1 c.2).map Prod.fst) s

end StructuredChunkAggregator

/-! ## What the messages should be -/

def ChunkType.closes : ChunkType → Bool
  | .end | .error => true
  | _ => false

/-- The chunks of one message. -/
structure MessageChunks where
  key : MessageKey
  chunks : List StructuredChunk := []
  deriving DecidableEq, Repr

namespace MessageChunks

variable (m : MessageChunks)

def isOpen : Bool := m.chunks.getLast?.all fun c => !c.type.closes

def itemText (chunk : StructuredChunk) : String :=
  if chunk.type = .item then chunk.content.getD "" else ""

/-- The item chunks, in order. -/
def items : String := (m.chunks.map itemText).foldl (· ++ ·) ""

/-- The error text follows the items, after a blank line. -/
def withError (items errorText : String) : String :=
  (if items ≠ "" then items ++ "\n\n" else "") ++ errorText

def errorText : Option String :=
  match m.chunks.getLast? with
  | some c => if c.type = .error then c.content else none
  | none => none

def content : String := m.errorText.elim m.items (withError m.items)

/-- The place of the message that is open for a key, which is a new one where none is. -/
def ensure (messages : List MessageChunks) (key : MessageKey) : List MessageChunks × ℕ :=
  match messages.findIdx? fun m => m.key = key ∧ m.isOpen with
  | some i => (messages, i)
  | none => (messages ++ [{ key }], messages.length)

/-- A chunk is for the message that is open for its key. -/
def receive (messages : List MessageChunks) (chunk : StructuredChunk) : List MessageChunks :=
  let (messages, i) := ensure messages chunk.key
  messages.modify i fun m => { m with chunks := m.chunks ++ [chunk] }

/-- The messages a stream is made of, in the order in which they are begun. -/
def ofStream (chunks : List StructuredChunk) : List MessageChunks := chunks.foldl receive []

end MessageChunks

/-- Each message follows the one before it, and the first follows this one. -/
def Linked : String → List AggregatedMessage → Prop
  | _, [] => True
  | previousMessageId, m :: ms => m.previousMessageId = previousMessageId ∧ Linked m.id ms

/-- What a stream and `finalizeAll` should leave. -/
structure Streamed (initialPreviousMessageId : String) (chunks : List StructuredChunk)
    (s : StructuredChunkAggregator) : Prop where
  terminal : ∀ m ∈ s.messages,
    m.status = .success ∨ m.status = .error ∨ m.status = .cancelled
  contents : s.messages.map (·.content) = (MessageChunks.ofStream chunks).map (·.content)
  linked : Linked initialPreviousMessageId s.messages

/-- The last chunk of each key is an end or an error. -/
def Ended (chunks : List StructuredChunk) : Prop :=
  ∀ c ∈ chunks, (chunks.filter (·.key = c.key)).getLast?.any (·.type.closes) = true

instance (chunks : List StructuredChunk) : Decidable (Ended chunks) :=
  inferInstanceAs (Decidable (∀ c ∈ chunks, _))

end N8n
