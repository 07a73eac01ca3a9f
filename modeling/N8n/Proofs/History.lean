import N8n.History
import N8n.Library.Reversal
import Mathlib.Data.Finset.Union
import Mathlib.Data.Fintype.EquivFin

/-!
# A recorded bulk, undone and redone

Whatever way of reverting takes each command back in the state right after it, the commands of a
bulk are taken back when they lead from the one workflow to the other without those that were
dropped.
-/

namespace N8n

namespace History

/-- The workflow on the canvas. -/
@[ext]
structure Workflow where
  nodes : Finset INodeUi
  connections : Finset (IConnection × IConnection)
  names : ∀ node ∈ nodes, ∀ node' ∈ nodes, node.name = node'.name → node = node'

namespace Workflow

variable (w w' : Workflow)

/-- The workflow with another node in the place of one. -/
structure Replaces (node node' : INodeUi) : Prop where
  mem : node ∈ w.nodes
  mem' : node' ∈ w'.nodes
  others : w.nodes.erase node = w'.nodes.erase node'

end Workflow

/-- The connection after a node has been renamed. -/
def renameEnds (currentName newName : String) (c : IConnection × IConnection) :
    IConnection × IConnection :=
  let rename (e : IConnection) := if e.node = currentName then { e with node := newName } else e
  (rename c.1, rename c.2)

def Mentions (name : String) (c : IConnection × IConnection) : Prop :=
  c.1.node = name ∨ c.2.node = name

/-- The command is an actual change of the one workflow into the other. -/
def Applies (c : Command) (w w' : Workflow) : Prop :=
  match c with
  | .moveNode nodeName oldPosition newPosition _ =>
    oldPosition ≠ newPosition ∧ w'.connections = w.connections ∧ ∃ node,
      w.Replaces w' node { node with position := newPosition } ∧ node.name = nodeName ∧
        node.position = oldPosition
  | .addNode node _ =>
    w'.connections = w.connections ∧ node ∉ w.nodes ∧ w'.nodes = insert node w.nodes
  | .removeNode node _ =>
    w'.connections = w.connections ∧ node ∈ w.nodes ∧ w'.nodes = w.nodes.erase node
  | .addConnection connectionData _ =>
    w'.nodes = w.nodes ∧ connectionData ∉ w.connections ∧
      w'.connections = insert connectionData w.connections
  | .removeConnection connectionData _ =>
    w'.nodes = w.nodes ∧ connectionData ∈ w.connections ∧
      w'.connections = w.connections.erase connectionData
  | .enableNodeToggle nodeName oldState newState _ =>
    oldState ≠ newState ∧ w'.connections = w.connections ∧ ∃ node,
      w.Replaces w' node { node with disabled := newState } ∧ node.name = nodeName ∧
        node.disabled = oldState
  | .renameNode currentName newName _ =>
    currentName ≠ newName ∧ (∀ c ∈ w.connections, ¬ Mentions newName c) ∧
      w'.connections = w.connections.image (renameEnds currentName newName) ∧ ∃ node,
        w.Replaces w' node { node with name := newName } ∧ node.name = currentName
  | .replaceNodeParameters nodeId currentParameters newParameters _ =>
    currentParameters.values ≠ newParameters.values ∧ w'.connections = w.connections ∧ ∃ node,
      w.Replaces w' node { node with parameters := newParameters.values } ∧ node.id = nodeId ∧
        node.parameters = currentParameters.values ∧ ∀ node' ∈ w.nodes, node'.id = nodeId →
          node' = node

/-! ## Changes of a workflow -/

namespace Workflow

variable {w w' v v' : Workflow} {node node' : INodeUi}

theorem Replaces.symm (h : w.Replaces w' node node') : w'.Replaces w node' node :=
  ⟨h.mem', h.mem, h.others.symm⟩

theorem Replaces.unique (h : w.Replaces v node node') (h' : w.Replaces v' node node') :
    v.nodes = v'.nodes := by
  rw [← Finset.insert_erase h.mem', ← Finset.insert_erase h'.mem', ← h.others, ← h'.others]

end Workflow

theorem renameEnds_renameEnds {currentName newName : String} {c : IConnection × IConnection}
    (h : ¬ Mentions newName c) :
    renameEnds newName currentName (renameEnds currentName newName c) = c := by
  obtain ⟨⟨n₁, t₁, i₁⟩, ⟨n₂, t₂, i₂⟩⟩ := c
  simp only [Mentions, not_or] at h
  by_cases h₁ : n₁ = currentName <;> by_cases h₂ : n₂ = currentName <;>
    simp [renameEnds, h₁, h₂, h.1, h.2]

theorem not_mentions_renameEnds {currentName newName : String} (hne : currentName ≠ newName)
    (c : IConnection × IConnection) :
    ¬ Mentions currentName (renameEnds currentName newName c) := by
  obtain ⟨⟨n₁, t₁, i₁⟩, ⟨n₂, t₂, i₂⟩⟩ := c
  by_cases h₁ : n₁ = currentName <;> by_cases h₂ : n₂ = currentName <;>
    simp [renameEnds, Mentions, h₁, h₂, hne.symm]

theorem image_renameEnds {currentName newName : String} {cs : Finset (IConnection × IConnection)}
    (h : ∀ c ∈ cs, ¬ Mentions newName c) :
    (cs.image (renameEnds currentName newName)).image (renameEnds newName currentName) = cs := by
  rw [Finset.image_image]
  calc cs.image (renameEnds newName currentName ∘ renameEnds currentName newName)
      = cs.image id := Finset.image_congr fun c hc => renameEnds_renameEnds (h c hc)
    _ = cs := Finset.image_id

/-- Every change is taken back by the reverse command. -/
theorem Applies.reverse {c : Command} {w w' : Workflow} (timestamp : ℕ) (h : Applies c w w') :
    Applies (c.getReverseCommand timestamp) w' w := by
  cases c with
  | moveNode nodeName oldPosition newPosition =>
    obtain ⟨hne, hconnections, ⟨id, name, position, disabled, parameters⟩, hreplaces, hname,
      hold⟩ := h
    obtain rfl : position = oldPosition := hold
    exact ⟨hne.symm, hconnections.symm, _, hreplaces.symm, hname, rfl⟩
  | addNode node =>
    obtain ⟨hconnections, hmem, hnodes⟩ := h
    exact ⟨hconnections.symm, by simp [hnodes], by simp [hnodes, hmem]⟩
  | removeNode node =>
    obtain ⟨hconnections, hmem, hnodes⟩ := h
    exact ⟨hconnections.symm, by simp [hnodes], by rw [hnodes, Finset.insert_erase hmem]⟩
  | addConnection connectionData =>
    obtain ⟨hnodes, hmem, hconnections⟩ := h
    exact ⟨hnodes.symm, by simp [hconnections], by simp [hconnections, hmem]⟩
  | removeConnection connectionData =>
    obtain ⟨hnodes, hmem, hconnections⟩ := h
    exact ⟨hnodes.symm, by simp [hconnections], by rw [hconnections, Finset.insert_erase hmem]⟩
  | enableNodeToggle nodeName oldState newState =>
    obtain ⟨hne, hconnections, ⟨id, name, position, disabled, parameters⟩, hreplaces, hname,
      hold⟩ := h
    obtain rfl : disabled = oldState := hold
    exact ⟨hne.symm, hconnections.symm, _, hreplaces.symm, hname, rfl⟩
  | renameNode currentName newName =>
    obtain ⟨hne, hfree, hconnections, ⟨id, name, position, disabled, parameters⟩, hreplaces,
      hname⟩ := h
    obtain rfl : name = currentName := hname
    refine ⟨hne.symm, ?_, ?_, _, hreplaces.symm, rfl⟩
    · intro c hc
      rw [hconnections] at hc
      obtain ⟨c', -, rfl⟩ := Finset.mem_image.1 hc
      exact not_mentions_renameEnds hne c'
    · rw [hconnections, image_renameEnds hfree]
  | replaceNodeParameters nodeId currentParameters newParameters =>
    obtain ⟨hne, hconnections, ⟨id, name, position, disabled, parameters⟩, hreplaces, hid, hold,
      honly⟩ := h
    obtain rfl : parameters = currentParameters.values := hold
    refine ⟨hne.symm, hconnections.symm, _, hreplaces.symm, hid, rfl, fun node hnode hnodeId => ?_⟩
    by_contra hother
    have hmem := Finset.mem_erase.2 ⟨hother, hnode⟩
    rw [← hreplaces.others] at hmem
    exact (Finset.mem_erase.1 hmem).1 (honly node (Finset.mem_erase.1 hmem).2 hnodeId)

/-- A command says what it does. -/
theorem Applies.unique {c : Command} {w v v' : Workflow} (h : Applies c w v) (h' : Applies c w v') :
    v = v' := by
  cases c with
  | moveNode nodeName oldPosition newPosition =>
    obtain ⟨-, hconnections, node, hreplaces, hname, -⟩ := h
    obtain ⟨-, hconnections', node', hreplaces', hname', -⟩ := h'
    obtain rfl := w.names node hreplaces.mem node' hreplaces'.mem (hname.trans hname'.symm)
    exact Workflow.ext (hreplaces.unique hreplaces') (hconnections.trans hconnections'.symm)
  | addNode node =>
    exact Workflow.ext (h.2.2.trans h'.2.2.symm) (h.1.trans h'.1.symm)
  | removeNode node =>
    exact Workflow.ext (h.2.2.trans h'.2.2.symm) (h.1.trans h'.1.symm)
  | addConnection connectionData =>
    exact Workflow.ext (h.1.trans h'.1.symm) (h.2.2.trans h'.2.2.symm)
  | removeConnection connectionData =>
    exact Workflow.ext (h.1.trans h'.1.symm) (h.2.2.trans h'.2.2.symm)
  | enableNodeToggle nodeName oldState newState =>
    obtain ⟨-, hconnections, node, hreplaces, hname, -⟩ := h
    obtain ⟨-, hconnections', node', hreplaces', hname', -⟩ := h'
    obtain rfl := w.names node hreplaces.mem node' hreplaces'.mem (hname.trans hname'.symm)
    exact Workflow.ext (hreplaces.unique hreplaces') (hconnections.trans hconnections'.symm)
  | renameNode currentName newName =>
    obtain ⟨-, -, hconnections, node, hreplaces, hname⟩ := h
    obtain ⟨-, -, hconnections', node', hreplaces', hname'⟩ := h'
    obtain rfl := w.names node hreplaces.mem node' hreplaces'.mem (hname.trans hname'.symm)
    exact Workflow.ext (hreplaces.unique hreplaces') (hconnections.trans hconnections'.symm)
  | replaceNodeParameters nodeId currentParameters newParameters =>
    obtain ⟨-, hconnections, node, hreplaces, hid, -, honly⟩ := h
    obtain ⟨-, hconnections', node', hreplaces', hid', -⟩ := h'
    obtain rfl := honly node' hreplaces'.mem hid'
    exact Workflow.ext (hreplaces.unique hreplaces') (hconnections.trans hconnections'.symm)

theorem Applies.injective {c : Command} {w w' v : Workflow} (h : Applies c w v)
    (h' : Applies c w' v) : w = w' :=
  (h.reverse 0).unique (h'.reverse 0)

/-! ## Names that appear -/

/-- The command gives a node this name. -/
def Introduces (name : String) : Command → Prop
  | .addNode node _ => node.name = name
  | .renameNode _ newName _ => newName = name
  | _ => False

def Workflow.Has (w : Workflow) (name : String) : Prop := ∃ node ∈ w.nodes, node.name = name

theorem Workflow.Replaces.has {w w' : Workflow} {node node' : INodeUi} {name : String}
    (h : w.Replaces w' node node') (hname : node'.name = name → node.name = name)
    (hw : w'.Has name) : w.Has name := by
  obtain ⟨other, hother, hothername⟩ := hw
  by_cases heq : other = node'
  · subst heq
    exact ⟨node, h.mem, hname hothername⟩
  · have hmem := Finset.mem_erase.2 ⟨heq, hother⟩
    rw [← h.others] at hmem
    exact ⟨other, Finset.mem_of_mem_erase hmem, hothername⟩

theorem Applies.has {c : Command} {w w' : Workflow} {name : String} (h : Applies c w w')
    (hname : ¬ Introduces name c) (hw : w'.Has name) : w.Has name := by
  cases c with
  | moveNode =>
    obtain ⟨-, -, node, hreplaces, -⟩ := h
    exact hreplaces.has id hw
  | addNode node =>
    obtain ⟨other, hother, hothername⟩ := hw
    rw [h.2.2] at hother
    rcases Finset.mem_insert.1 hother with rfl | hother
    · exact absurd hothername hname
    · exact ⟨other, hother, hothername⟩
  | removeNode =>
    obtain ⟨other, hother, hothername⟩ := hw
    rw [h.2.2] at hother
    exact ⟨other, Finset.mem_of_mem_erase hother, hothername⟩
  | addConnection =>
    obtain ⟨hnodes, -⟩ := h
    simpa [Workflow.Has, hnodes] using hw
  | removeConnection =>
    obtain ⟨hnodes, -⟩ := h
    simpa [Workflow.Has, hnodes] using hw
  | enableNodeToggle =>
    obtain ⟨-, -, node, hreplaces, -⟩ := h
    exact hreplaces.has id hw
  | renameNode currentName newName =>
    obtain ⟨-, -, -, node, hreplaces, -⟩ := h
    exact hreplaces.has (fun h => absurd h hname) hw
  | replaceNodeParameters =>
    obtain ⟨-, -, node, hreplaces, -⟩ := h
    exact hreplaces.has id hw

/-- A name that neither the workflow nor a command has. -/
theorem exists_fresh (w : Workflow) (cs : List Command) :
    ∃ name, ¬ w.Has name ∧ ∀ c ∈ cs, ¬ Introduces name c := by
  classical
  let introduced : Command → Finset String := fun
    | .addNode node _ => {node.name}
    | .renameNode _ newName _ => {newName}
    | _ => ∅
  obtain ⟨name, hname⟩ :=
    Infinite.exists_notMem_finset (w.nodes.image (·.name) ∪ cs.toFinset.biUnion introduced)
  simp only [Finset.mem_union, Finset.mem_image, Finset.mem_biUnion, List.mem_toFinset, not_or,
    not_exists, not_and] at hname
  refine ⟨name, fun h => ?_, fun c hc h => hname.2 c hc ?_⟩
  · obtain ⟨node, hnode, hnodename⟩ := h
    exact hname.1 node hnode hnodename
  · cases c <;> simp_all [introduced, Introduces]

/-! ## Recording -/

/-- The commands that no earlier one is equal to. -/
def keep (kept : List Command) (c : Command) : List Command :=
  if kept.any (·.isEqualTo c) then kept else kept ++ [c]

def kept (commands : List Command) : List Command := commands.foldl keep []

namespace HistoryStore

variable {s : HistoryStore}

/-- Everything that is recorded in between. -/
def recordUndo (s : HistoryStore) (commands : List Command) : HistoryStore :=
  (commands.foldl (·.pushCommandToUndo ·) s.startRecordingUndo).stopRecordingUndo

/-- The state of the store while it records. -/
structure Records (s : HistoryStore) (commands : List Command) : Prop where
  action : s.currentBulkAction = some commands
  idle : s.bulkInProgress = false

theorem Records.push {commands : List Command} (h : s.Records commands) (c : Command) :
    (s.pushCommandToUndo c).Records (keep commands c) ∧ (s.pushCommandToUndo c).redoStack = [] := by
  unfold pushCommandToUndo keep
  simp only [h.idle, Bool.false_eq_true, if_false, h.action, if_true]
  split_ifs
  · exact ⟨⟨h.action, h.idle⟩, rfl⟩
  · exact ⟨⟨rfl, rfl⟩, rfl⟩

theorem Records.foldl : ∀ (cs : List Command) {commands : List Command} {s : HistoryStore},
    s.Records commands → (cs.foldl (·.pushCommandToUndo ·) s).Records (cs.foldl keep commands) ∧
      (cs ≠ [] → (cs.foldl (·.pushCommandToUndo ·) s).redoStack = [])
  | [], _, _, h => ⟨h, fun hne => absurd rfl hne⟩
  | [c], _, _, h => ⟨(h.push c).1, fun _ => (h.push c).2⟩
  | c :: d :: cs, _, _, h => by
    obtain ⟨hrecords, hredo⟩ := Records.foldl (d :: cs) (h.push c).1
    exact ⟨hrecords, fun _ => hredo (List.cons_ne_nil _ _)⟩

theorem mem_undoStack_checkLimit (stack : List Undoable) (undoable : Undoable) :
    ∃ rest, checkLimit (stack ++ [undoable]) = rest ++ [undoable] := by
  unfold checkLimit
  split_ifs with h
  · cases stack with
    | nil => simp [stackLimit] at h
    | cons _ stack => exact ⟨stack, rfl⟩
  · exact ⟨stack, rfl⟩

theorem kept_ne_nil {cs : List Command} (hne : cs ≠ []) : kept cs ≠ [] := by
  rcases List.eq_nil_or_concat' cs with rfl | ⟨cs, c, rfl⟩
  · exact absurd rfl hne
  rw [kept, List.foldl_concat]
  generalize cs.foldl keep [] = commands
  unfold keep
  split_ifs with h
  · rintro rfl
    cases h
  · simp

theorem recordUndo_stacks {cs : List Command} (hidle : s.bulkInProgress = false) (hne : cs ≠ []) :
    (∃ rest, (s.recordUndo cs).undoStack = rest ++ [.bulk (kept cs)]) ∧
      (s.recordUndo cs).redoStack = [] := by
  have hstart : s.startRecordingUndo.Records [] := ⟨rfl, hidle⟩
  obtain ⟨hrecords, hredo⟩ := Records.foldl cs hstart
  have haction : (cs.foldl (·.pushCommandToUndo ·) s.startRecordingUndo).currentBulkAction =
    some (kept cs) := hrecords.action
  unfold recordUndo stopRecordingUndo
  rw [haction]
  cases hkept : kept cs with
  | nil => exact absurd hkept (kept_ne_nil hne)
  | cons c commands => exact ⟨mem_undoStack_checkLimit _ _, hredo hne⟩

section Revert

variable {σ : Type} {revert : Command → σ → σ} {timestamp : ℕ} {w : σ}

theorem revertCommands_eq (commands : List Command) :
    revertCommands revert timestamp commands w =
      (commands.foldr revert w, commands.reverse.map (·.getReverseCommand timestamp)) := by
  unfold revertCommands
  induction commands with
  | nil => rfl
  | cons c commands ih => simp [ih]

theorem undo_bulk {rest : List Undoable} {commands : List Command}
    (h : s.undoStack = rest ++ [.bulk commands]) :
    (s.undo revert timestamp w).2 = commands.foldr revert w ∧
      ∃ rest', (s.undo revert timestamp w).1.redoStack =
        rest' ++ [.bulk (commands.reverse.map (·.getReverseCommand timestamp))] := by
  simp only [undo, popUndoableToUndo, h, List.getLast?_concat, revertCommands_eq]
  exact ⟨trivial, mem_undoStack_checkLimit _ _⟩

theorem redo_bulk {rest : List Undoable} {commands : List Command}
    (h : s.redoStack = rest ++ [.bulk commands]) :
    (s.redo revert timestamp w).2 = commands.foldr revert w ∧
      ∃ rest', (s.redo revert timestamp w).1.undoStack =
        rest' ++ [.bulk (commands.reverse.map (·.getReverseCommand timestamp))] := by
  simp only [redo, popUndoableToRedo, h, List.getLast?_concat, revertCommands_eq]
  exact ⟨trivial, mem_undoStack_checkLimit _ _⟩

end Revert

end HistoryStore

/-! ## A bulk there and back -/

/-- The recorded commands are undone, redone and undone once more. -/
def Restores (revert : Command → Workflow → Workflow) (timestamps : ℕ × ℕ × ℕ) (s : HistoryStore)
    (cs : List Command) (w w' : Workflow) : Prop :=
  let undone := (s.recordUndo cs).undo revert timestamps.1 w'
  let redone := undone.1.redo revert timestamps.2.1 undone.2
  let undoneAgain := redone.1.undo revert timestamps.2.2 redone.2
  undone.2 = w ∧ redone.2 = w' ∧ undoneAgain.2 = w

section Restores

variable {timestamps : ℕ × ℕ × ℕ} {s : HistoryStore} {cs : List Command} {w w' : Workflow}

theorem undone_eq (revert : Command → Workflow → Workflow) (hidle : s.bulkInProgress = false)
    (hne : cs ≠ []) (timestamp : ℕ) :
    ((s.recordUndo cs).undo revert timestamp w').2 = (kept cs).foldr revert w' := by
  obtain ⟨⟨rest, hundo⟩, -⟩ := HistoryStore.recordUndo_stacks hidle hne
  exact (HistoryStore.undo_bulk hundo).1

theorem restores_of_applied {revert : Command → Workflow → Workflow}
    (hexact : Reversal.Exact Applies revert) (hidle : s.bulkInProgress = false) (hne : cs ≠ [])
    (happ : Reversal.Applied Applies w (kept cs) w') : Restores revert timestamps s cs w w' := by
  have hback {commands : List Command} (timestamp : ℕ) {v v' : Workflow}
      (h : Reversal.Applied Applies v commands v') : Reversal.Applied Applies v'
        (commands.reverse.map (·.getReverseCommand timestamp)) v :=
    Reversal.applied_reverse (fun _ _ _ h => h.reverse timestamp) h
  obtain ⟨⟨rest, hundo⟩, -⟩ := HistoryStore.recordUndo_stacks hidle hne
  obtain ⟨hundone, rest, hredo⟩ := HistoryStore.undo_bulk hundo
  obtain ⟨hredone, rest, hundo⟩ := HistoryStore.redo_bulk hredo
  obtain ⟨hundoneAgain, -⟩ := HistoryStore.undo_bulk hundo
  have happ₁ := hback timestamps.1 happ
  have happ₂ := hback timestamps.2.1 happ₁
  have hw := hundone.trans (Reversal.foldr_revert hexact happ)
  have hw' := hredone.trans (Reversal.foldr_revert hexact (hw.symm ▸ happ₁))
  exact ⟨hw, hw', hundoneAgain.trans (Reversal.foldr_revert hexact (hw'.symm ▸ happ₂))⟩

theorem restores_iff (hidle : s.bulkInProgress = false) (hne : cs ≠ []) :
    (∀ revert, Reversal.Exact Applies revert → Restores revert timestamps s cs w w') ↔
      Reversal.Applied Applies w (kept cs) w' := by
  refine ⟨fun h => ?_, fun happ revert hexact => restores_of_applied hexact hidle hne happ⟩
  obtain ⟨name, hname, hcs⟩ := exists_fresh w (kept cs)
  let node : INodeUi :=
    { id := "", name, position := 0, disabled := false, parameters := .empty }
  have htrap : Workflow.Has ⟨{node}, ∅, by simp⟩ name := ⟨node, by simp, rfl⟩
  refine Reversal.applied_of_foldr (T := (Workflow.Has · name)) (fun _ _ _ _ h h' => h.injective h')
    htrap (fun c hc _ _ happ => happ.has (hcs c hc)) hname fun revert hexact => ?_
  rw [← undone_eq revert hidle hne timestamps.1]
  exact (h revert hexact).1

end Restores

/-! ## Toggling a node -/

def httpRequest (disabled : Bool) : INodeUi where
  id := "1"
  name := "HTTP Request"
  position := (0, 0)
  disabled := disabled
  parameters := .empty

def oneNode (disabled : Bool) : Workflow where
  nodes := {httpRequest disabled}
  connections := ∅
  names := by simp

def toggle (oldState newState : Bool) : Command :=
  .enableNodeToggle "HTTP Request" oldState newState 0

theorem applies_toggle {oldState newState : Bool} (hne : oldState ≠ newState) :
    Applies (toggle oldState newState) (oneNode oldState) (oneNode newState) :=
  ⟨hne, rfl, httpRequest oldState, ⟨by simp [oneNode], by simp [oneNode, httpRequest],
    by simp [oneNode, httpRequest]⟩, rfl, rfl⟩

theorem restores_toggle :
    Restores (Reversal.revertOr Applies (oneNode false)) (1, 2, 3) {} [toggle false true]
      (oneNode false) (oneNode true) := by
  have happ : Reversal.Applied Applies (oneNode false) (kept [toggle false true]) (oneNode true) :=
    ⟨oneNode true, applies_toggle (by decide), rfl⟩
  exact (restores_iff rfl (List.cons_ne_nil _ _)).2 happ _
    (Reversal.exact_revertOr _ fun _ _ _ _ h h' => h.injective h')

theorem not_restores_toggle_twice :
    Reversal.Applied Applies (oneNode false) [toggle false true, toggle true false]
        (oneNode false) ∧
      (∃ revert, Reversal.Exact Applies revert) ∧
      ∀ revert, Reversal.Exact Applies revert →
        ¬ Restores revert (1, 2, 3) {} [toggle false true, toggle true false] (oneNode false)
          (oneNode false) := by
  refine ⟨⟨oneNode true, applies_toggle (by decide), oneNode false, applies_toggle (by decide),
      rfl⟩, ⟨Reversal.revertOr Applies (oneNode false),
      Reversal.exact_revertOr _ fun _ _ _ _ h h' => h.injective h'⟩, ?_⟩
  rintro revert hexact ⟨hundone, hredone, -⟩
  -- only the first toggle is kept
  have hkept : kept [toggle false true, toggle true false] = [toggle false true] := by
    simp [kept, keep, toggle, Command.isEqualTo]
  have hne : [toggle false true, toggle true false] ≠ [] := List.cons_ne_nil _ _
  obtain ⟨⟨rest, hundo⟩, -⟩ := HistoryStore.recordUndo_stacks (s := {}) rfl hne
  obtain ⟨-, rest, hredo⟩ := HistoryStore.undo_bulk hundo
  have hredone' := (HistoryStore.redo_bulk hredo).1.symm.trans hredone
  rw [hundone, hkept] at hredone'
  have hback := hexact _ _ _ (Applies.reverse 1 (applies_toggle (by decide : false ≠ true)))
  have heq : oneNode true = oneNode false := hback.symm.trans hredone'
  simpa [oneNode, httpRequest] using congrArg Workflow.nodes heq

end History

end N8n
