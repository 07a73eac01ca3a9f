import N8n.ExecutionRecovery
import Mathlib.Data.Finset.Max
import Mathlib.Data.List.Pairwise

/-!
# What a recovered execution says of its log

The loop goes over the nodes as the workflow defines them and takes of each the first run. It ends
with the entry of the last node that has events, which is the node of the last run only if the
definition has it last, and with the times of that node's first run.
-/

namespace N8n

namespace ExecutionRecovery

/-- The events of a sequential run of the nodes, cut off anywhere. -/
inductive SequentialLog (nodes : List String) : List EventMessage → Prop
  | nil : SequentialLog nodes []
  | cutOff {node : String} {ts : ℤ} : node ∈ nodes →
    SequentialLog nodes [{ eventName := .nodeStarted, nodeName := some node, ts }]
  | run {node : String} {ts ts' : ℤ} {log : List EventMessage} : node ∈ nodes →
    SequentialLog nodes log →
      SequentialLog nodes ({ eventName := .nodeStarted, nodeName := some node, ts } ::
        { eventName := .nodeFinished, nodeName := some node, ts := ts' } :: log)

/-- The node of the last started event. -/
def lastStarted (log : List EventMessage) : Option String :=
  (log.reverse.find? (·.eventName = .nodeStarted)).bind (·.nodeName)

/-- The node was started more often than it finished. -/
def Unfinished (log : List EventMessage) (node : String) : Prop :=
  log.countP (·.finished node) < log.countP (·.started node)

namespace Execution

variable (e : Execution)

def runData : Dict String (List TaskData) := (e.data.getD {}).runData

/-- A crash error is recorded for the node. -/
def HasCrashed (node : String) : Prop :=
  ∃ tasks, e.runData.get? node = some tasks ∧ ∃ task ∈ tasks, task.error = some (.nodeCrashed node)

structure Reflects (log : List EventMessage) : Prop where
  crashed : ∀ node, e.HasCrashed node ↔ Unfinished log node
  last : (e.data.getD {}).lastNodeExecuted = lastStarted log
  stopped : ∃ stoppedAt, e.stoppedAt = some stoppedAt ∧ ∀ m ∈ log, m.ts ≤ stoppedAt

end Execution

/-- The node of the last run comes last in the definition, among those that have events. If it was
cut off it had not run before, and otherwise no event is later than its first end. -/
structure EndsWithFirstRun (nodes : List String) (log : List EventMessage) (node : String) :
    Prop where
  definedLast : ∀ node', (∃ m ∈ log, m.started node') → nodes.idxOf node' ≤ nodes.idxOf node
  cutOff : ∀ m, log.getLast? = some m → m.started node → ∀ m' ∈ log, ¬ m'.finished node
  finished : ∀ m, log.find? (·.finished node) = some m → ∀ m' ∈ log, m'.ts ≤ m.ts

/-! ## Sequential logs -/

theorem started_iff {m : EventMessage} {node : String} :
    m.started node ↔ m.nodeName = some node ∧ m.eventName = .nodeStarted := by
  simp [EventMessage.started]

theorem finished_iff {m : EventMessage} {node : String} :
    m.finished node ↔ m.nodeName = some node ∧ m.eventName = .nodeFinished := by
  simp [EventMessage.finished]

namespace SequentialLog

variable {nodes : List String} {log : List EventMessage}

theorem mem_nodes {m : EventMessage} {node : String} (h : SequentialLog nodes log) (hm : m ∈ log)
    (hnode : m.started node) : node ∈ nodes := by
  induction h with
  | nil => simp at hm
  | cutOff hn =>
    obtain rfl := List.mem_singleton.1 hm
    obtain rfl := Option.some.inj (started_iff.1 hnode).1
    exact hn
  | run hn _ ih =>
    rcases List.mem_cons.1 hm with rfl | hm
    · obtain rfl := Option.some.inj (started_iff.1 hnode).1
      exact hn
    · rcases List.mem_cons.1 hm with rfl | hm
      · simp [EventMessage.started] at hnode
      · exact ih hm

/-- Only the run that was cut off is left open. -/
theorem countP_started (h : SequentialLog nodes log) (node : String) :
    log.countP (·.started node) =
      log.countP (·.finished node) + if log.getLast?.any (·.started node) then 1 else 0 := by
  induction h with
  | nil => rfl
  | cutOff => simp [List.countP_cons, EventMessage.started, EventMessage.finished]
  | @run node' ts ts' log _ _ ih =>
    have hlast : (log.getLast?.any (·.started node)) =
        (({ eventName := .nodeStarted, nodeName := some node', ts } ::
          { eventName := .nodeFinished, nodeName := some node', ts := ts' } ::
            log : List EventMessage).getLast?.any (·.started node)) := by
      cases log with
      | nil => simp [EventMessage.started]
      | cons => simp
    rw [← hlast]
    simp [List.countP_cons, EventMessage.started, EventMessage.finished] at ih ⊢
    omega

theorem unfinished_iff (h : SequentialLog nodes log) {node : String} :
    Unfinished log node ↔ ∃ m, log.getLast? = some m ∧ m.started node := by
  unfold Unfinished
  rw [h.countP_started node]
  cases log.getLast? with
  | none => simp
  | some m => cases hm : m.started node <;> simp [hm]

/-- The last event is one of the node that started last. -/
theorem lastStarted_eq (h : SequentialLog nodes log) :
    lastStarted log = log.getLast?.bind (·.nodeName) := by
  induction h with
  | nil => rfl
  | cutOff => rfl
  | @run node ts ts' log _ hlog ih =>
    cases log with
    | nil => rfl
    | cons m log =>
      obtain ⟨l, hl⟩ : ∃ l, (m :: log).reverse.find? (·.eventName = .nodeStarted) = some l := by
        refine Option.isSome_iff_exists.1 (List.find?_isSome.2 ⟨m, by simp, ?_⟩)
        cases hlog <;> rfl
      rw [List.getLast?_cons_cons, List.getLast?_cons_cons, ← ih, lastStarted, lastStarted,
        List.reverse_cons, List.reverse_cons, List.append_assoc, List.find?_append, hl]
      rfl

theorem exists_started {m : EventMessage} (h : SequentialLog nodes log) (hm : m ∈ log) :
    ∃ node, m.nodeName = some node ∧ ∃ m' ∈ log, m'.started node := by
  induction h with
  | nil => simp at hm
  | @cutOff node ts =>
    rw [List.mem_singleton.1 hm]
    exact ⟨node, rfl, _, List.mem_singleton_self _, started_iff.2 ⟨rfl, rfl⟩⟩
  | @run node ts ts' log _ _ ih =>
    rcases List.mem_cons.1 hm with rfl | hm
    · exact ⟨node, rfl, _, List.mem_cons_self, started_iff.2 ⟨rfl, rfl⟩⟩
    rcases List.mem_cons.1 hm with rfl | hm
    · exact ⟨node, rfl, _, List.mem_cons_self, started_iff.2 ⟨rfl, rfl⟩⟩
    obtain ⟨node', hnode', m', hm', hstarted⟩ := ih hm
    exact ⟨node', hnode', m', List.mem_cons_of_mem _ (List.mem_cons_of_mem _ hm'), hstarted⟩

theorem lastStarted_isSome (h : SequentialLog nodes log) (hlog : log ≠ []) :
    ∃ node, lastStarted log = some node ∧ ∃ m ∈ log, m.started node := by
  obtain ⟨node, hnode, hstarted⟩ := h.exists_started (List.getLast_mem hlog)
  refine ⟨node, ?_, hstarted⟩
  rw [h.lastStarted_eq, List.getLast?_eq_some_getLast hlog]
  exact hnode

/-- A node that never finished was started once, by the last event. -/
theorem getLast?_of_started (h : SequentialLog nodes log) {m : EventMessage} {node : String}
    (hm : m ∈ log) (hnode : m.started node) (hfin : ∀ m' ∈ log, ¬ m'.finished node) :
    log.getLast? = some m := by
  induction h with
  | nil => simp at hm
  | cutOff => rw [List.mem_singleton.1 hm]; rfl
  | @run node' ts ts' log _ hlog ih =>
    have hne : node' ≠ node := by
      rintro rfl
      exact hfin _ (List.mem_cons_of_mem _ List.mem_cons_self) (finished_iff.2 ⟨rfl, rfl⟩)
    rcases List.mem_cons.1 hm with rfl | hm
    · exact absurd (Option.some.inj (started_iff.1 hnode).1) hne
    rcases List.mem_cons.1 hm with rfl | hm
    · simp [EventMessage.started] at hnode
    have hlast := ih hm fun m' hm' => hfin m' (by simp [hm'])
    cases log with
    | nil => simp at hm
    | cons m' log => rw [List.getLast?_cons_cons, List.getLast?_cons_cons, hlast]

end SequentialLog

/-! ## The loop over the nodes -/

section Loop

variable (log : List EventMessage)

/-- The node has events and comes last among those of the list. -/
structure LastOf (nodes : List String) (node : String) : Prop where
  mem : node ∈ nodes
  started : ∃ m ∈ log, m.started node
  last : ∀ node' ∈ nodes, (∃ m ∈ log, m.started node') → nodes.idxOf node' ≤ nodes.idxOf node

/-- The entry that a node gets. -/
def entryOf (node : String) : Option (List TaskData) :=
  (log.find? (·.started node)).map fun started =>
    match log.find? (·.finished node) with
    | some finished => [finishedTask started finished]
    | none => [crashedTask node started]

/-- The time at which a node has stopped. -/
def stopOf (node : String) : Option ℤ :=
  ((log.find? (·.finished node)).or (log.find? (·.started node))).map (·.ts)

/-- The nodes of the list have their entries, and the rest is that of the last. -/
structure Amends (nodes : List String) (a : Amended) : Prop where
  entries : ∀ node, a.data.runData.get? node = if node ∈ nodes then entryOf log node else none
  last : ∀ node, LastOf log nodes node →
    a.data.lastNodeExecuted = some node ∧ a.lastNodeRunTimestamp = stopOf log node

variable {log}

theorem amends_nil {a : Amended} (h : ∀ node, a.data.runData.get? node = none) :
    Amends log [] a where
  entries node := (by simpa using h node)
  last _ h := (by simpa using h.mem)

/-- What a turn of the loop does. -/
theorem amendNode_cases (log : List EventMessage) (a : Amended) (node : String) :
    ((∀ m ∈ log, ¬ m.started node) ∧ amendNode log a node = a) ∨
      (a.data.runData.get? node ≠ none ∧ amendNode log a node = a) ∨
      ∃ started, log.find? (·.started node) = some started ∧ a.data.runData.get? node = none ∧
        ((∃ finished, log.find? (·.finished node) = some finished ∧
            amendNode log a node = a.success node started finished) ∨
          (log.find? (·.finished node) = none ∧
            amendNode log a node = a.crashed node started)) := by
  unfold amendNode
  cases hstarted : log.find? (·.started node) with
  | none => exact .inl ⟨by simpa using hstarted, rfl⟩
  | some started =>
    by_cases hrun : a.data.runData.get? node ≠ none
    · exact .inr (.inl ⟨hrun, if_pos hrun⟩)
    · refine .inr (.inr ⟨started, rfl, not_not.1 hrun, ?_⟩)
      simp only [if_neg hrun]
      cases hfinished : log.find? (·.finished node) with
      | some finished => exact .inl ⟨finished, rfl, rfl⟩
      | none => exact .inr ⟨rfl, rfl⟩

theorem entryOf_eq_none {node : String} :
    entryOf log node = none ↔ ∀ m ∈ log, ¬ m.started node := by
  simp [entryOf]

theorem LastOf.idxOf_append {nodes : List String} {node node' : String}
    (h : LastOf log (nodes ++ [node']) node) (hmem : node' ∈ nodes ∨ ∀ m ∈ log, ¬ m.started node') :
    LastOf log nodes node := by
  have hnode : node ∈ nodes := by
    rcases List.mem_append.1 h.mem with hnode | hnode
    · exact hnode
    obtain rfl := List.mem_singleton.1 hnode
    refine hmem.resolve_right fun hno => ?_
    obtain ⟨m, hm, hstarted⟩ := h.started
    exact hno m hm hstarted
  refine ⟨hnode, h.started, fun node' hnode' hstarted => ?_⟩
  have := h.last node' (List.mem_append_left _ hnode') hstarted
  rwa [List.idxOf_append_of_mem hnode, List.idxOf_append_of_mem hnode'] at this

theorem LastOf.eq_of_notMem {nodes : List String} {node node' : String}
    (h : LastOf log (nodes ++ [node']) node) (hmem : node' ∉ nodes)
    (hstarted : ∃ m ∈ log, m.started node') : node = node' := by
  rcases List.mem_append.1 h.mem with hnode | hnode
  · have hle := h.last node' (by simp) hstarted
    rw [List.idxOf_append_of_mem hnode, List.idxOf_append_of_notMem hmem] at hle
    have := List.idxOf_lt_length_of_mem hnode
    omega
  · exact List.mem_singleton.1 hnode

theorem Amends.skip {nodes : List String} {a : Amended} {node : String} (h : Amends log nodes a)
    (hmem : node ∈ nodes ∨ ∀ m ∈ log, ¬ m.started node) : Amends log (nodes ++ [node]) a where
  entries node' := by
    rw [h.entries node']
    by_cases hnode' : node' ∈ nodes
    · rw [if_pos hnode', if_pos (List.mem_append_left _ hnode')]
    · by_cases heq : node' = node
      · subst heq
        rw [if_neg hnode', entryOf_eq_none.2 (hmem.resolve_left hnode'), ite_self]
      · rw [if_neg hnode', if_neg (by simp [hnode', heq])]
  last node' hlast := h.last node' (hlast.idxOf_append hmem)

theorem Amends.enter {nodes : List String} {a a' : Amended} {node : String}
    {tasks : List TaskData} (h : Amends log nodes a) (hnone : a.data.runData.get? node = none)
    (hentry : entryOf log node = some tasks)
    (hrun : a'.data.runData = a.data.runData.set node tasks)
    (hlast : a'.data.lastNodeExecuted = some node)
    (hstop : a'.lastNodeRunTimestamp = stopOf log node) : Amends log (nodes ++ [node]) a' := by
  have hmem : node ∉ nodes := fun hmem => by
    rw [h.entries node, if_pos hmem, hentry] at hnone
    cases hnone
  refine ⟨fun node' => ?_, fun node' hnode' => ?_⟩
  · rw [hrun, Dict.get?_set]
    by_cases heq : node' = node
    · rw [if_pos heq, heq, if_pos (by simp), hentry]
    · rw [if_neg heq, h.entries node']
      simp [heq]
  · have hstarted : ∃ m ∈ log, m.started node := by
      by_contra hno
      rw [entryOf_eq_none.2 fun m hm hm' => hno ⟨m, hm, hm'⟩] at hentry
      cases hentry
    rw [hnode'.eq_of_notMem hmem hstarted]
    exact ⟨hlast, hstop⟩

theorem Amends.amendNode {nodes : List String} {a : Amended} (h : Amends log nodes a)
    (node : String) : Amends log (nodes ++ [node]) (amendNode log a node) := by
  rcases amendNode_cases log a node with
    ⟨hno, heq⟩ | ⟨hrun, heq⟩ | ⟨started, hstarted, hnone, ⟨finished, hfin, heq⟩ | ⟨hfin, heq⟩⟩
  · rw [heq]
    exact h.skip (.inr hno)
  · rw [heq]
    refine h.skip (.inl (by_contra fun hmem => hrun ?_))
    rw [h.entries node, if_neg hmem]
  · have hentry : entryOf log node = some [finishedTask started finished] := by
      simp [entryOf, hstarted, hfin]
    refine h.enter hnone hentry ?_ ?_ ?_
    all_goals rw [heq]
    · rfl
    · rfl
    · simp [stopOf, hfin, Amended.success]
  · have hentry : entryOf log node = some [crashedTask node started] := by
      simp [entryOf, hstarted, hfin]
    refine h.enter hnone hentry ?_ ?_ ?_
    all_goals rw [heq]
    · rfl
    · rfl
    · simp [stopOf, hfin, hstarted, Amended.crashed]

theorem Amends.foldl : ∀ {nodes done : List String} {a : Amended}, Amends log done a →
    Amends log (done ++ nodes) (nodes.foldl (ExecutionRecovery.amendNode log) a)
  | [], done, a, h => by simpa using h
  | node :: nodes, done, a, h => by
    rw [List.append_cons]
    exact (h.amendNode node).foldl

end Loop

/-! ## The rebuilt execution -/

section Rebuilt

variable {execution : Execution} {log : List EventMessage} (workflowMessages : List EventMessage)

theorem amends_foldl (hdata : ∀ node, execution.runData.get? node = none) :
    Amends log execution.nodes
      (execution.nodes.foldl (amendNode log) { data := execution.data.getD {} }) := by
  have hnil : Amends log [] { data := execution.data.getD {} } := amends_nil hdata
  exact hnil.foldl

theorem hasCrashed_iff (hdata : ∀ node, execution.runData.get? node = none)
    (hseq : SequentialLog execution.nodes log) {node : String} :
    (amendFromLogs execution log workflowMessages).HasCrashed node ↔
      (∃ m ∈ log, m.started node) ∧ ∀ m ∈ log, ¬ m.finished node := by
  have hentry : (amendFromLogs execution log workflowMessages).runData.get? node =
      if node ∈ execution.nodes then entryOf log node else none := (amends_foldl hdata).entries node
  unfold Execution.HasCrashed
  rw [hentry]
  cases hstarted : log.find? (·.started node) with
  | none =>
    have hno : ∀ m ∈ log, ¬ m.started node := by simpa using hstarted
    rw [entryOf_eq_none.2 hno, ite_self]
    refine ⟨fun ⟨_, h, _⟩ => (by cases h), fun ⟨⟨m, hm, hm'⟩, _⟩ => absurd hm' (hno m hm)⟩
  | some started =>
    have hm := List.mem_of_find?_eq_some hstarted
    have hm' : started.started node := List.find?_some hstarted
    rw [if_pos (hseq.mem_nodes hm hm')]
    cases hfinished : log.find? (·.finished node) with
    | none =>
      refine ⟨fun _ => ⟨⟨started, hm, hm'⟩, by simpa using hfinished⟩, fun _ => ?_⟩
      exact ⟨[crashedTask node started], by simp [entryOf, hstarted, hfinished], _,
        List.mem_singleton_self _, rfl⟩
    | some finished =>
      constructor
      · rintro ⟨tasks, htasks, task, htask, herror⟩
        obtain rfl : [finishedTask started finished] = tasks := by
          simpa [entryOf, hstarted, hfinished] using htasks
        obtain rfl := List.mem_singleton.1 htask
        cases herror
      · rintro ⟨_, hno⟩
        exact absurd (List.find?_some hfinished) (hno _ (List.mem_of_find?_eq_some hfinished))

/-- What the last node leaves behind. -/
theorem amendFromLogs_last (hdata : ∀ node, execution.runData.get? node = none) {node : String}
    (hlast : LastOf log execution.nodes node) :
    ((amendFromLogs execution log workflowMessages).data.getD {}).lastNodeExecuted = some node ∧
      (amendFromLogs execution log workflowMessages).stoppedAt = stopOf log node := by
  obtain ⟨hnode, hstop⟩ := (amends_foldl hdata).last node hlast
  refine ⟨hnode, ?_⟩
  obtain ⟨t, ht⟩ : ∃ t, stopOf log node = some t := by
    obtain ⟨started, hstarted⟩ := Option.isSome_iff_exists.1 (List.find?_isSome.2 hlast.started)
    cases hfinished : log.find? (·.finished node) <;> simp [stopOf, hstarted, hfinished]
  rw [ht] at hstop ⊢
  simp [amendFromLogs, toStoppedAt, hstop]

/-- Of the nodes that have events one comes last. -/
theorem exists_lastOf (hseq : SequentialLog execution.nodes log) (hlog : log ≠ []) :
    ∃ node, LastOf log execution.nodes node := by
  obtain ⟨node₀, -, m₀, hm₀, hstarted₀⟩ := hseq.lastStarted_isSome hlog
  let candidates := execution.nodes.toFinset.filter fun node => ∃ m ∈ log, m.started node
  obtain ⟨node, hnode, hlast⟩ := candidates.exists_max_image execution.nodes.idxOf
    ⟨node₀, by simpa [candidates] using ⟨hseq.mem_nodes hm₀ hstarted₀, m₀, hm₀, hstarted₀⟩⟩
  simp only [candidates, Finset.mem_filter, List.mem_toFinset] at hnode hlast
  exact ⟨node, hnode.1, hnode.2, fun node' hnode' hstarted => hlast node' ⟨hnode', hstarted⟩⟩

/-- When the last node comes last the time of its first run is that of the log. -/
theorem stopOf_ge_iff {nodes : List String} (hseq : SequentialLog nodes log)
    (htime : log.Pairwise (·.ts ≤ ·.ts)) {node : String} (hstarted : ∃ m ∈ log, m.started node) :
    (∃ t, stopOf log node = some t ∧ ∀ m ∈ log, m.ts ≤ t) ↔
      ∀ m, log.find? (·.finished node) = some m → ∀ m' ∈ log, m'.ts ≤ m.ts := by
  cases hfinished : log.find? (·.finished node) with
  | some finished => simp [stopOf, hfinished]
  | none =>
    obtain ⟨started, hfind⟩ := Option.isSome_iff_exists.1 (List.find?_isSome.2 hstarted)
    have hgetLast := hseq.getLast?_of_started (List.mem_of_find?_eq_some hfind)
      (List.find?_some hfind) (by simpa using hfinished)
    refine iff_of_true ⟨started.ts, by simp [stopOf, hfinished, hfind], fun m hm => ?_⟩ (by simp)
    obtain ⟨before, rfl⟩ := List.getLast?_eq_some_iff.1 hgetLast
    rcases List.mem_append.1 hm with hm | hm
    · exact (List.pairwise_append.1 htime).2.2 m hm started (List.mem_singleton_self _)
    · exact (congrArg (·.ts) (List.mem_singleton.1 hm)).le

theorem reflects_amendFromLogs (hdata : ∀ node, execution.runData.get? node = none)
    (hlog : log ≠ []) (hseq : SequentialLog execution.nodes log)
    (htime : log.Pairwise (·.ts ≤ ·.ts)) :
    (amendFromLogs execution log workflowMessages).Reflects log ↔
      ∃ node, lastStarted log = some node ∧ EndsWithFirstRun execution.nodes log node := by
  obtain ⟨node, hnode, hstarted⟩ := hseq.lastStarted_isSome hlog
  constructor
  · intro h
    obtain ⟨node', hlast⟩ := exists_lastOf hseq hlog
    obtain ⟨hlast', hstop⟩ := amendFromLogs_last workflowMessages hdata hlast
    obtain rfl : node' = node := Option.some.inj (by rw [← hlast', h.last, hnode])
    refine ⟨node', hnode, fun n hn => ?_, fun m hm hm' => ?_, ?_⟩
    · obtain ⟨m, hm, hm'⟩ := hn
      exact hlast.last n (hseq.mem_nodes hm hm') ⟨m, hm, hm'⟩
    · exact ((hasCrashed_iff workflowMessages hdata hseq).1 ((h.crashed node').2
        (hseq.unfinished_iff.2 ⟨m, hm, hm'⟩))).2
    · exact (stopOf_ge_iff hseq htime hstarted).1 (hstop ▸ h.stopped)
  · rintro ⟨node', hnode', hends⟩
    obtain rfl : node' = node := Option.some.inj (by rw [← hnode', hnode])
    have hmem : node' ∈ execution.nodes := by
      obtain ⟨m, hm, hm'⟩ := hstarted
      exact hseq.mem_nodes hm hm'
    obtain ⟨hlast, hstop⟩ := amendFromLogs_last workflowMessages hdata
      ⟨hmem, hstarted, fun n _ hn => hends.definedLast n hn⟩
    refine ⟨fun n => ?_, hlast.trans hnode.symm, ?_⟩
    · rw [hasCrashed_iff workflowMessages hdata hseq, hseq.unfinished_iff]
      constructor
      · rintro ⟨⟨m, hm, hm'⟩, hno⟩
        exact ⟨m, hseq.getLast?_of_started hm hm' hno, hm'⟩
      · rintro ⟨m, hm, hm'⟩
        have hn : n = node' := by
          rw [hseq.lastStarted_eq, hm] at hnode
          exact Option.some.inj ((started_iff.1 hm').1.symm.trans hnode)
        subst hn
        exact ⟨⟨m, List.mem_of_getLast? hm, hm'⟩, hends.cutOff m hm hm'⟩
    · rw [hstop]
      exact (stopOf_ge_iff hseq htime hstarted).2 hends.finished

variable {workflowMessages} {executions : Dict String Execution} {now : ℤ} {executionId : String}
  {messages : List EventMessage}

theorem rebuilt_reflects_iff (hget : executions.get? executionId = some execution)
    (hopen : isFinished execution = false) (hdata : ∀ node, execution.runData.get? node = none)
    (hlog : messages.filter (·.eventName.isNode) = log) (hne : log ≠ [])
    (hseq : SequentialLog execution.nodes log) (htime : log.Pairwise (·.ts ≤ ·.ts)) :
    ∃ rebuilt, (amend executions now executionId messages).2 = some rebuilt ∧
      (rebuilt.Reflects log ↔
        ∃ node, lastStarted log = some node ∧ EndsWithFirstRun execution.nodes log node) := by
  refine ⟨_, ?_, reflects_amendFromLogs (messages.filter (·.eventName.isWorkflow)) hdata hne hseq
    htime⟩
  have hmessages : messages ≠ [] := by
    rintro rfl
    exact hne hlog.symm
  simp only [amend, if_neg hmessages, hlog, if_neg hne, hget, hopen, Bool.false_eq_true, if_false]

end Rebuilt

/-! ## Two logs -/

def started (nodeName : String) (ts : ℤ) : EventMessage :=
  { eventName := .nodeStarted, nodeName := some nodeName, ts }

def finished (nodeName : String) (ts : ℤ) : EventMessage :=
  { eventName := .nodeFinished, nodeName := some nodeName, ts }

def interrupted (nodes : List String) : Dict String Execution :=
  .set .empty "1" { status := .running, nodes }

def cutOffInCode : List EventMessage :=
  [started "Trigger" 0, finished "Trigger" 5, started "Code" 6]

theorem endsWithFirstRun_code : EndsWithFirstRun ["Trigger", "Code"] cutOffInCode "Code" where
  definedLast node h := by
    obtain ⟨m, hm, hm'⟩ := h
    have hseq : SequentialLog ["Trigger", "Code"] cutOffInCode :=
      .run (by decide) (.cutOff (by decide))
    have hnode := hseq.mem_nodes hm hm'
    simp only [List.mem_cons, List.not_mem_nil, or_false] at hnode
    rcases hnode with rfl | rfl <;> decide
  cutOff _ _ _ := by decide
  finished m h := by
    rw [show cutOffInCode.find? (·.finished "Code") = none by decide] at h
    cases h

theorem cutOffInCode_reflected :
    ∃ rebuilt, (amend (interrupted ["Trigger", "Code"]) 9 "1" cutOffInCode).2 = some rebuilt ∧
      rebuilt.Reflects cutOffInCode := by
  obtain ⟨rebuilt, hrebuilt, hiff⟩ :
      ∃ rebuilt, (amend (interrupted ["Trigger", "Code"]) 9 "1" cutOffInCode).2 = some rebuilt ∧
        (rebuilt.Reflects cutOffInCode ↔ ∃ node, lastStarted cutOffInCode = some node ∧
          EndsWithFirstRun ["Trigger", "Code"] cutOffInCode node) :=
    rebuilt_reflects_iff (Dict.get?_set_self _ _ _) rfl (fun _ => rfl) rfl (by decide)
      (.run (by decide) (.cutOff (by decide))) (by decide)
  exact ⟨rebuilt, hrebuilt, hiff.2 ⟨"Code", by decide, endsWithFirstRun_code⟩⟩

/-- The second run of a loop, cut off. -/
def cutOffInLoop : List EventMessage :=
  [started "Loop Over Items" 0, finished "Loop Over Items" 5, started "HTTP Request" 6,
    finished "HTTP Request" 300, started "Loop Over Items" 301]

theorem cutOffInLoop_not_reflected :
    SequentialLog ["Loop Over Items", "HTTP Request"] cutOffInLoop ∧
      cutOffInLoop.Pairwise (·.ts ≤ ·.ts) ∧
      ∃ rebuilt, (amend (interrupted ["Loop Over Items", "HTTP Request"]) 302 "1"
          cutOffInLoop).2 = some rebuilt ∧
        Unfinished cutOffInLoop "Loop Over Items" ∧ ¬ rebuilt.HasCrashed "Loop Over Items" ∧
        ¬ rebuilt.Reflects cutOffInLoop := by
  have hseq : SequentialLog ["Loop Over Items", "HTTP Request"] cutOffInLoop :=
    .run (by decide) (.run (by decide) (.cutOff (by decide)))
  have hunfinished : Unfinished cutOffInLoop "Loop Over Items" := by
    unfold Unfinished
    decide
  have hcrashed : ¬ (amendFromLogs
      { status := .running, nodes := ["Loop Over Items", "HTTP Request"] } cutOffInLoop
      []).HasCrashed "Loop Over Items" := by
    rw [hasCrashed_iff [] (fun _ => rfl) hseq]
    exact fun h => h.2 (finished "Loop Over Items" 5) (by decide) (by decide)
  exact ⟨hseq, by decide, _, rfl, hunfinished, hcrashed,
    fun h => hcrashed ((h.crashed _).2 hunfinished)⟩

end ExecutionRecovery

end N8n
