import N8n.Library.Batches
import N8n.Values

/-!
# Loop over items

The node hands its input on a batch at a time. It is called with its input first and then with what
the loop body has returned for the batch before, and it remembers both in its context.
-/

namespace N8n

namespace SplitInBatches

/-- An item; `δ` is all that it has but its `pairedItem`. -/
structure LoopItem (δ : Type) where
  data : δ
  pairedItem : Option PairedItem := none

/-- What the node remembers. There is no context before the first call. -/
structure NodeContext (δ : Type) where
  currentRunIndex : ℕ
  maxRunIndex : ℕ
  sourceData : Option SourceData
  items : List (LoopItem δ)
  processedItems : List (LoopItem δ)
  noItemsLeft : Bool
  done : Bool

/-- The items on the two outputs, `done` and `loop`. -/
structure Outputs (δ : Type) where
  done : List (LoopItem δ)
  loop : List (LoopItem δ)

/-- What a call of the node gets. -/
structure NodeInput (δ : Type) where
  items : List (LoopItem δ)
  sourceData : Option SourceData

variable {δ : Type}

def addSourceOverwrite (sourceData : Option SourceData) (pairedItem : PairedItemData) :
    PairedItemData :=
  { pairedItem with sourceOverwrite := sourceData }

def getPairedItemInformation (sourceData : Option SourceData) (item : LoopItem δ) : PairedItem :=
  match item.pairedItem with
  | none => .single { item := 0, sourceOverwrite := sourceData }
  | some (.list pairedItems) => .list (pairedItems.map (addSourceOverwrite sourceData))
  | some (.single pairedItem) => .single (addSourceOverwrite sourceData pairedItem)
  | some (.index pairedItem) => .single { item := pairedItem, sourceOverwrite := sourceData }

/-- The items that the loop body has returned, paired with themselves. -/
def newItems (input : NodeInput δ) : List (LoopItem δ) :=
  input.items.mapIdx fun index item =>
    { item with pairedItem := some (.single { item := index, sourceOverwrite := input.sourceData }) }

/-- The rest of a call, once the items to return are taken. -/
def finishCall (context : NodeContext δ) (returnItems : List (LoopItem δ)) :
    Outputs δ × NodeContext δ :=
  let context := { context with noItemsLeft := context.items.isEmpty }
  if returnItems.length = 0 then
    (⟨context.processedItems, []⟩, { context with done := true })
  else (⟨[], returnItems⟩, { context with done := false })

def execute (batchSize : ℕ) (reset : Bool) (nodeContext : Option (NodeContext δ))
    (input : NodeInput δ) : Outputs δ × NodeContext δ :=
  let first :=
    finishCall
      { currentRunIndex := 0, maxRunIndex := Batches.count batchSize input.items.length
        sourceData := input.sourceData, items := input.items.drop batchSize, processedItems := []
        noItemsLeft := false, done := false }
      (input.items.take batchSize)
  match nodeContext with
  | none => first
  | some nodeContext =>
    if reset then first
    else
      finishCall
        { nodeContext with
          currentRunIndex := nodeContext.currentRunIndex + 1
          items := nodeContext.items.drop batchSize
          processedItems := nodeContext.processedItems ++ newItems input }
        ((nodeContext.items.take batchSize).map fun item =>
          { item with pairedItem := some (getPairedItemInformation nodeContext.sourceData item) })

/-! ## The loop -/

/-- The calls of the node; the first is for its input, and each other for what the loop body has
returned. -/
def call (batchSize : ℕ) (input : NodeInput δ) (returned : ℕ → NodeInput δ) :
    ℕ → Outputs δ × NodeContext δ
  | 0 => execute batchSize false none input
  | k + 1 => execute batchSize false (some (call batchSize input returned k).2) (returned k)

/-- The items are all handed to the loop body, and all it has returned is handed on at the end. -/
structure Conserves (batchSize : ℕ) (input : NodeInput δ) (returned : ℕ → NodeInput δ) : Prop where
  /-- The batches are the input. -/
  batches : (List.range (Batches.count batchSize input.items.length)).flatMap
      (fun k => (call batchSize input returned k).1.loop.map LoopItem.data) =
    input.items.map LoopItem.data
  /-- Every batch but the last is full. -/
  full : ∀ k, k + 1 < Batches.count batchSize input.items.length →
    (call batchSize input returned k).1.loop.length = batchSize
  /-- There are items in a batch, and nothing is done before the last one. -/
  batch : ∀ k < Batches.count batchSize input.items.length,
    (call batchSize input returned k).1.loop ≠ [] ∧ (call batchSize input returned k).1.done = []
  /-- What is done is what the loop body has returned. -/
  done : (call batchSize input returned (Batches.count batchSize input.items.length)).1.loop = [] ∧
    (call batchSize input returned (Batches.count batchSize input.items.length)).1.done.map
      LoopItem.data =
    (List.range (Batches.count batchSize input.items.length)).flatMap fun k =>
      (returned k).items.map LoopItem.data
  noItemsLeft : ∀ k ≤ Batches.count batchSize input.items.length,
    ((call batchSize input returned k).2.noItemsLeft = true ↔
      Batches.count batchSize input.items.length ≤ k + 1)

end SplitInBatches

end N8n
