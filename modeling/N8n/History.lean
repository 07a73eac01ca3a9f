import N8n.Values
import Mathlib.Data.Rat.Defs

/-!
# Undo and redo

What is done on the canvas is pushed onto a stack of commands. Commands that are recorded together
become one bulk, without those that are considered equal to an earlier one. Undoing and redoing
reverts the commands of a bulk from its end and hands their reverse on to the other stack.
-/

namespace N8n

namespace History

abbrev XYPosition := ℚ × ℚ

/-- An object with parameters; `===` compares the references. -/
structure INodeParameters where
  ref : ℕ
  values : DataObject
  deriving DecidableEq

structure INodeUi where
  id : String
  name : String
  position : XYPosition
  disabled : Bool
  parameters : DataObject
  deriving DecidableEq

structure IConnection where
  node : String
  type : NodeConnectionType
  index : ℕ
  deriving DecidableEq, Repr

inductive Command
  | moveNode (nodeName : String) (oldPosition newPosition : XYPosition) (timestamp : ℕ)
  | addNode (node : INodeUi) (timestamp : ℕ)
  | removeNode (node : INodeUi) (timestamp : ℕ)
  | addConnection (connectionData : IConnection × IConnection) (timestamp : ℕ)
  | removeConnection (connectionData : IConnection × IConnection) (timestamp : ℕ)
  | enableNodeToggle (nodeName : String) (oldState newState : Bool) (timestamp : ℕ)
  | renameNode (currentName newName : String) (timestamp : ℕ)
  | replaceNodeParameters (nodeId : String) (currentParameters newParameters : INodeParameters)
    (timestamp : ℕ)
  deriving DecidableEq

namespace Command

def getReverseCommand (timestamp : ℕ) : Command → Command
  | moveNode nodeName oldPosition newPosition _ =>
    moveNode nodeName newPosition oldPosition timestamp
  | addNode node _ => removeNode node timestamp
  | removeNode node _ => addNode node timestamp
  | addConnection connectionData _ => removeConnection connectionData timestamp
  | removeConnection connectionData _ => addConnection connectionData timestamp
  | enableNodeToggle nodeName oldState newState _ =>
    enableNodeToggle nodeName newState oldState timestamp
  | renameNode currentName newName _ => renameNode newName currentName timestamp
  | replaceNodeParameters nodeId currentParameters newParameters _ =>
    replaceNodeParameters nodeId newParameters currentParameters timestamp

/-- The types of the connections are not compared. -/
def sameConnection (c d : IConnection × IConnection) : Bool :=
  d.1.node = c.1.node && d.2.node = c.2.node && d.1.index = c.1.index && d.2.index = c.2.index

def isEqualTo : Command → Command → Bool
  | moveNode nodeName oldPosition newPosition _, moveNode nodeName' oldPosition' newPosition' _ =>
    nodeName' = nodeName && oldPosition'.1 = oldPosition.1 && oldPosition'.2 = oldPosition.2 &&
      newPosition'.1 = newPosition.1 && newPosition'.2 = newPosition.2
  | addNode node _, addNode node' _ => node'.name = node.name
  -- `instanceof AddNodeCommand`, as for the command that adds a node
  | removeNode node _, addNode node' _ => node'.name = node.name
  | addConnection connectionData _, addConnection connectionData' _ =>
    sameConnection connectionData connectionData'
  | removeConnection connectionData _, removeConnection connectionData' _ =>
    sameConnection connectionData connectionData'
  | enableNodeToggle nodeName _ _ _, enableNodeToggle nodeName' _ _ _ => nodeName' = nodeName
  | renameNode currentName newName _, renameNode currentName' newName' _ =>
    currentName' = currentName && newName' = newName
  | replaceNodeParameters nodeId currentParameters newParameters _,
      replaceNodeParameters nodeId' currentParameters' newParameters' _ =>
    nodeId' = nodeId && currentParameters'.ref = currentParameters.ref &&
      newParameters'.ref = newParameters.ref
  | _, _ => false

end Command

inductive Undoable
  | command (command : Command)
  | bulk (commands : List Command)
  deriving DecidableEq

/-- The last element of a stack is its top. -/
structure HistoryStore where
  undoStack : List Undoable := []
  redoStack : List Undoable := []
  currentBulkAction : Option (List Command) := none
  bulkInProgress : Bool := false
  deriving DecidableEq

namespace HistoryStore

def stackLimit : ℕ := 100

/-- `shift`, above the limit -/
def checkLimit (stack : List Undoable) : List Undoable :=
  if stackLimit < stack.length then stack.drop 1 else stack

variable (s : HistoryStore)

def popUndoableToUndo : Option Undoable × HistoryStore :=
  (s.undoStack.getLast?, { s with undoStack := s.undoStack.dropLast })

def popUndoableToRedo : Option Undoable × HistoryStore :=
  (s.redoStack.getLast?, { s with redoStack := s.redoStack.dropLast })

def checkUndoStackLimit : HistoryStore := { s with undoStack := checkLimit s.undoStack }

def checkRedoStackLimit : HistoryStore := { s with redoStack := checkLimit s.redoStack }

def clearRedoStack : HistoryStore := { s with redoStack := [] }

def pushCommandToUndo (undoable : Command) (clearRedo : Bool := true) : HistoryStore :=
  if s.bulkInProgress then s
  else
    let pushed : HistoryStore :=
      match s.currentBulkAction with
      | some commands =>
        if commands.any (·.isEqualTo undoable) then s
        else { s with currentBulkAction := some (commands ++ [undoable]) }
      | none => { s with undoStack := s.undoStack ++ [.command undoable] }
    if clearRedo then pushed.checkUndoStackLimit.clearRedoStack else pushed.checkUndoStackLimit

def pushBulkCommandToUndo (commands : List Command) (clearRedo : Bool := true) : HistoryStore :=
  let pushed : HistoryStore := { s with undoStack := s.undoStack ++ [.bulk commands] }
  if clearRedo then pushed.checkUndoStackLimit.clearRedoStack else pushed.checkUndoStackLimit

def pushUndoableToRedo (undoable : Undoable) : HistoryStore :=
  checkRedoStackLimit { s with redoStack := s.redoStack ++ [undoable] }

def startRecordingUndo : HistoryStore := { s with currentBulkAction := some [] }

def stopRecordingUndo : HistoryStore :=
  let recorded :=
    match s.currentBulkAction with
    | some (c :: commands) =>
      checkUndoStackLimit { s with undoStack := s.undoStack ++ [Undoable.bulk (c :: commands)] }
    | _ => s
  { recorded with currentBulkAction := none }

/-! ## Undoing and redoing -/

section Revert

variable {σ : Type} (revert : Command → σ → σ) (timestamp : ℕ)

/-- The loop over the commands of a bulk. -/
def revertCommands (commands : List Command) (w : σ) : σ × List Command :=
  commands.reverse.foldl
    (fun r command => (revert command r.1, r.2 ++ [command.getReverseCommand timestamp])) (w, [])

def undo (w : σ) : HistoryStore × σ :=
  match s.popUndoableToUndo with
  | (none, s) => (s, w)
  | (some (.bulk commands), s) =>
    let (w, reverseCommands) := revertCommands revert timestamp commands w
    ({ s.pushUndoableToRedo (Undoable.bulk reverseCommands) with bulkInProgress := false }, w)
  | (some (.command command), s) =>
    (s.pushUndoableToRedo (.command (command.getReverseCommand timestamp)), revert command w)

def redo (w : σ) : HistoryStore × σ :=
  match s.popUndoableToRedo with
  | (none, s) => (s, w)
  | (some (.bulk commands), s) =>
    let (w, reverseCommands) := revertCommands revert timestamp commands w
    ({ s.pushBulkCommandToUndo reverseCommands false with bulkInProgress := false }, w)
  | (some (.command command), s) =>
    (s.pushCommandToUndo (command.getReverseCommand timestamp) false, revert command w)

end Revert

end HistoryStore

end History

end N8n
