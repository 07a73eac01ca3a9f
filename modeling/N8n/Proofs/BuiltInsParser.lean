import Mathlib.Logic.Relation
import Mathlib.Tactic
import N8n.BuiltInsParser

/-!
# The nodes a program is given

Each visit of the walk adds what it asks for, and once all nodes are asked for, there are no names to
add. So it does not matter in which order the visits are made. A call of `$` asks for all nodes
unless it names one and a property of the result that is known and needs no other node.
-/

namespace N8n

namespace BuiltInsParser

open Relation BuiltInsParserState

/-! ## Visits -/

/-- A node that a visitor is called for; a call comes with the node above it. -/
inductive Visit
  | identifier (name : String)
  | call (callee : AstNode) (arguments : List AstNode) (parent : Option AstNode)

namespace Visit

def apply (state : BuiltInsParserState) : Visit → BuiltInsParserState
  | .identifier name => visitIdentifier name state
  | .call callee arguments parent =>
    visitCallExpression callee arguments state
      (.callExpression callee arguments :: parent.toList)

/-- What the visit asks for by itself. -/
abbrev asks (visit : Visit) : BuiltInsParserState := visit.apply {}

end Visit

mutual

/-- The visits of a walk, in order. -/
def visits (parent : Option AstNode) : AstNode → List Visit
  | .identifier name => [.identifier name]
  | .literal _ => []
  | .callExpression callee arguments =>
    visits (some (.callExpression callee arguments)) callee ++
      visitsAll (some (.callExpression callee arguments)) arguments ++
      [.call callee arguments parent]
  | .memberExpression object property computed =>
    visits (some (.memberExpression object property computed)) object ++
      if computed then visits (some (.memberExpression object property computed)) property else []
  | .other type children => visitsAll (some (.other type children)) children

def visitsAll (parent : Option AstNode) : List AstNode → List Visit
  | [] => []
  | child :: children => visits parent child ++ visitsAll parent children

end

theorem visitCallExpression_eq (callee : AstNode) (arguments : List AstNode)
    (state : BuiltInsParserState) (node : AstNode) (ancestors : List AstNode) :
    visitCallExpression callee arguments state (node :: ancestors) =
      visitCallExpression callee arguments state (node :: ancestors.head?.toList) := by
  have hhandle (state : BuiltInsParserState) : handlePrevNodeCall state (node :: ancestors) =
      handlePrevNodeCall state (node :: ancestors.head?.toList) := by
    cases ancestors with
    | nil => rfl
    | cons parent ancestors => cases parent <;> rfl
  unfold visitCallExpression
  split
  · unfold visitDollarCallExpression
    split_ifs
    · split
      · rfl
      · exact hhandle _
      · rfl
      · rfl
    · rfl
    · rfl
  · rfl

mutual

/-- The walk makes the visits one after the other. -/
theorem ancestor_eq_foldl : ∀ (ancestors : List AstNode) (node : AstNode)
    (state : BuiltInsParserState), ancestor ancestors node state =
      (visits ancestors.head? node).foldl Visit.apply state
  | _, .identifier _, _ => rfl
  | _, .literal _, _ => rfl
  | ancestors, .callExpression callee arguments, state => by
    rw [ancestor, visits, ancestor_eq_foldl, ancestorAll_eq_foldl, List.foldl_append, List.foldl_append,
      visitCallExpression_eq]
    rfl
  | ancestors, .memberExpression object property computed, state => by
    rw [ancestor, visits, List.foldl_append, ancestor_eq_foldl _ object]
    cases computed with
    | true =>
      rw [if_pos rfl, if_pos rfl, ancestor_eq_foldl _ property]
      rfl
    | false => rfl
  | ancestors, .other type children, state => by
    rw [ancestor, visits, ancestorAll_eq_foldl]
    rfl

theorem ancestorAll_eq_foldl : ∀ (ancestors nodes : List AstNode) (state : BuiltInsParserState),
    ancestorAll ancestors nodes state =
      (visitsAll ancestors.head? nodes).foldl Visit.apply state
  | _, [], _ => rfl
  | ancestors, child :: children, state => by
    rw [ancestorAll, visitsAll, List.foldl_append, ancestor_eq_foldl _ child,
      ancestorAll_eq_foldl _ children]

end

/-! ## Calls in a program -/

/-- The walk comes from the first node to the second at once. -/
inductive Child : AstNode → AstNode → Prop
  | callee (callee : AstNode) (arguments : List AstNode) :
    Child (.callExpression callee arguments) callee
  | argument {callee argument : AstNode} {arguments : List AstNode} (h : argument ∈ arguments) :
    Child (.callExpression callee arguments) argument
  | object (object property : AstNode) (computed : Bool) :
    Child (.memberExpression object property computed) object
  | property (object property : AstNode) : Child (.memberExpression object property true) property
  | child {type : String} {child : AstNode} {children : List AstNode} (h : child ∈ children) :
    Child (.other type children) child

/-- The node is in the program, right below the other. -/
def Within (program parent node : AstNode) : Prop :=
  ReflTransGen Child program parent ∧ Child parent node

theorem visits_subset_visitsAll {parent : Option AstNode} {child : AstNode} :
    ∀ {children : List AstNode}, child ∈ children →
      visits parent child ⊆ visitsAll parent children
  | first :: children, h => by
    rw [visitsAll]
    rcases List.mem_cons.1 h with rfl | h
    · exact List.subset_append_left _ _
    · exact List.Subset.trans (visits_subset_visitsAll h) (List.subset_append_right _ _)

theorem Child.visits_subset {parent node : AstNode} (h : Child parent node)
    (above : Option AstNode) : visits (some parent) node ⊆ visits above parent := by
  cases h with
  | callee =>
    rw [visits]
    exact List.Subset.trans (List.subset_append_left _ _) (List.subset_append_left _ _)
  | argument h =>
    rw [visits.eq_3 above]
    exact List.Subset.trans (List.Subset.trans (visits_subset_visitsAll h)
      (List.subset_append_right _ _)) (List.subset_append_left _ _)
  | object =>
    rw [visits.eq_4 above]
    exact List.subset_append_left _ _
  | property =>
    rw [visits.eq_4 above]
    exact List.subset_append_right _ _
  | child h =>
    rw [visits.eq_5 above]
    exact visits_subset_visitsAll h

/-- Each call is visited. -/
theorem mem_visits_of_within {program parent callee : AstNode} {arguments : List AstNode}
    (h : Within program parent (.callExpression callee arguments)) :
    .call callee arguments (some parent) ∈ visits none program := by
  obtain ⟨hpath, hchild⟩ := h
  have hsub {parent : AstNode} (hpath : ReflTransGen Child program parent) :
      ∀ above, ∃ above', visits above' parent ⊆ visits above program := by
    induction hpath with
    | refl => exact fun above => ⟨above, List.Subset.refl _⟩
    | @tail b c _ hbc ih =>
      intro above
      obtain ⟨above', hsub⟩ := ih above
      exact ⟨some b, List.Subset.trans (hbc.visits_subset above') hsub⟩
  obtain ⟨above, hsub⟩ := hsub hpath none
  refine hsub (hchild.visits_subset above ?_)
  rw [visits]
  exact List.mem_append_right _ (List.mem_singleton.2 rfl)

/-! ## What the visits ask for -/

/-- What one visit may do. -/
inductive Mark
  | nothing
  | allNodes
  | node (nodeName : String)
  | env
  | input
  | execution
  | prevNode

namespace Mark

def apply (state : BuiltInsParserState) : Mark → BuiltInsParserState
  | .nothing => state
  | .allNodes => state.markNeedsAllNodes
  | .node nodeName => state.markNodeAsNeeded nodeName
  | .env => state.markEnvAsNeeded
  | .input => state.markInputAsNeeded
  | .execution => state.markExecutionAsNeeded
  | .prevNode => state.markPrevNodeAsNeeded

end Mark

theorem markNeedsAllNodes_markNodeAsNeeded (state : BuiltInsParserState) (nodeName : String) :
    (state.markNodeAsNeeded nodeName).markNeedsAllNodes = state.markNeedsAllNodes := by
  unfold markNodeAsNeeded
  split_ifs <;> rfl

/-- A call of `$` marks the node that it names, or all nodes. -/
theorem handlePrevNodeCall_mark (ancestors : List AstNode) :
    (∀ state, handlePrevNodeCall state ancestors = state) ∨
      ∀ state, handlePrevNodeCall state ancestors = state.markNeedsAllNodes := by
  unfold handlePrevNodeCall
  split
  · split_ifs
    · split
      · split_ifs
        · exact .inr fun _ => rfl
        · exact .inl fun _ => rfl
      · exact .inr fun _ => rfl
      · exact .inl fun _ => rfl
    · split
      · split_ifs
        · exact .inr fun _ => rfl
        · exact .inl fun _ => rfl
      · exact .inl fun _ => rfl
  · exact .inr fun _ => rfl

theorem Visit.exists_mark : ∀ visit : Visit, ∃ mark : Mark, ∀ state,
    visit.apply state = mark.apply state
  | .identifier name => by
    unfold Visit.apply visitIdentifier
    dsimp only
    split_ifs
    · exact ⟨.env, fun _ => rfl⟩
    · exact ⟨.allNodes, fun _ => rfl⟩
    · exact ⟨.input, fun _ => rfl⟩
    · exact ⟨.allNodes, fun _ => rfl⟩
    · exact ⟨.execution, fun _ => rfl⟩
    · exact ⟨.prevNode, fun _ => rfl⟩
    · exact ⟨.nothing, fun _ => rfl⟩
  | .call callee arguments parent => by
    unfold Visit.apply visitCallExpression
    dsimp only
    split
    · split_ifs
      · unfold visitDollarCallExpression
        split
        · exact ⟨.nothing, fun _ => rfl⟩
        · rename_i value _
          rcases handlePrevNodeCall_mark (.callExpression _ _ :: parent.toList) with h | h
          · exact ⟨.node value, fun state => h _⟩
          · exact ⟨.allNodes, fun state =>
              (h _).trans (markNeedsAllNodes_markNodeAsNeeded state value)⟩
        · exact ⟨.nothing, fun _ => rfl⟩
        · exact ⟨.allNodes, fun _ => rfl⟩
      · unfold visitDollarItemsCallExpression
        split
        · exact ⟨.input, fun _ => rfl⟩
        · exact ⟨.node _, fun _ => rfl⟩
        · exact ⟨.nothing, fun _ => rfl⟩
        · exact ⟨.allNodes, fun _ => rfl⟩
      · exact ⟨.nothing, fun _ => rfl⟩
    · exact ⟨.nothing, fun _ => rfl⟩

/-- One of the flags of a state, which visits only ever set. -/
structure IsFlag (flag : BuiltInsParserState → Bool) : Prop where
  apply : ∀ state (mark : Mark), flag (mark.apply state) = (flag state || flag (mark.apply {}))
  initial : flag {} = false

theorem flags_apply (state : BuiltInsParserState) (mark : Mark) :
    (mark.apply state).needsAllNodes = (state.needsAllNodes || (mark.apply {}).needsAllNodes) ∧
      (mark.apply state).needsEnv = (state.needsEnv || (mark.apply {}).needsEnv) ∧
      (mark.apply state).needsInput = (state.needsInput || (mark.apply {}).needsInput) ∧
      (mark.apply state).needsPrevNode = (state.needsPrevNode || (mark.apply {}).needsPrevNode) := by
  cases mark with
  | node nodeName =>
    unfold Mark.apply markNodeAsNeeded
    dsimp only
    split_ifs <;> simp
  | allNodes | nothing | env | input | execution | prevNode =>
    simp [Mark.apply, markNeedsAllNodes, markEnvAsNeeded, markInputAsNeeded,
      markExecutionAsNeeded, markPrevNodeAsNeeded]

theorem isFlag_needsAllNodes : IsFlag (·.needsAllNodes) :=
  ⟨fun state mark => (flags_apply state mark).1, rfl⟩

theorem isFlag_needsEnv : IsFlag (·.needsEnv) :=
  ⟨fun state mark => (flags_apply state mark).2.1, rfl⟩

theorem isFlag_needsInput : IsFlag (·.needsInput) :=
  ⟨fun state mark => (flags_apply state mark).2.2.1, rfl⟩

theorem isFlag_needsPrevNode : IsFlag (·.needsPrevNode) :=
  ⟨fun state mark => (flags_apply state mark).2.2.2, rfl⟩

theorem IsFlag.foldl {flag : BuiltInsParserState → Bool} (h : IsFlag flag) :
    ∀ (visits : List Visit) (state : BuiltInsParserState),
      flag (visits.foldl Visit.apply state) =
        (flag state || visits.any fun visit => flag visit.asks)
  | [], state => by simp
  | visit :: visits, state => by
    obtain ⟨mark, hmark⟩ := visit.exists_mark
    rw [List.foldl_cons, h.foldl visits, List.any_cons, ← Bool.or_assoc, hmark, h.apply]
    unfold Visit.asks
    rw [hmark]

/-- With all nodes there are no names, and no name is there twice. -/
structure Valid (state : BuiltInsParserState) : Prop where
  all : state.needsAllNodes = true → state.neededNodeNames = []
  nodup : state.neededNodeNames.Nodup

theorem valid_apply {state : BuiltInsParserState} (h : Valid state) (mark : Mark) :
    Valid (mark.apply state) := by
  cases mark with
  | allNodes => exact ⟨fun _ => rfl, List.nodup_nil⟩
  | node nodeName =>
    unfold Mark.apply markNodeAsNeeded
    dsimp only
    split_ifs with hnot
    · exact h
    · rw [not_or, Bool.not_eq_true] at hnot
      refine ⟨fun hall => ?_, ?_⟩
      · rw [hnot.1] at hall
        cases hall
      · exact List.nodup_append.2 ⟨h.nodup, List.nodup_singleton _, by
          rintro a ha b hb rfl
          exact hnot.2 (List.mem_singleton.1 hb ▸ ha)⟩
  | nothing => exact h
  | env => exact ⟨h.all, h.nodup⟩
  | input => exact ⟨h.all, h.nodup⟩
  | execution => exact ⟨h.all, h.nodup⟩
  | prevNode => exact ⟨h.all, h.nodup⟩

theorem mem_names_apply {state : BuiltInsParserState} (h : Valid state) (mark : Mark)
    (nodeName : String) : nodeName ∈ (mark.apply state).neededNodeNames ↔
      (mark.apply state).needsAllNodes = false ∧ (nodeName ∈ state.neededNodeNames ∨
        nodeName ∈ (mark.apply {}).neededNodeNames) := by
  have hall (hmem : nodeName ∈ state.neededNodeNames) : state.needsAllNodes = false := by
    refine Bool.eq_false_iff.2 fun hall => ?_
    rw [h.all hall] at hmem
    exact absurd hmem List.not_mem_nil
  cases mark with
  | allNodes => simp [Mark.apply, markNeedsAllNodes]
  | node name =>
    unfold Mark.apply markNodeAsNeeded
    dsimp only
    by_cases hneeds : state.needsAllNodes = true
    · rw [if_pos (.inl hneeds), h.all hneeds]
      simp [hneeds]
    · rw [Bool.not_eq_true] at hneeds
      by_cases hmem : name ∈ state.neededNodeNames
      · rw [if_pos (.inr hmem)]
        simp only [hneeds, true_and, Bool.false_eq_true, List.not_mem_nil, or_self, if_false,
          List.nil_append, List.mem_singleton]
        exact ⟨.inl, fun h => h.elim id fun h => h ▸ hmem⟩
      · rw [if_neg (by simp [hneeds, hmem])]
        simp [hneeds]
  | nothing | env | input | execution | prevNode =>
    simp only [Mark.apply, markEnvAsNeeded, markInputAsNeeded, markExecutionAsNeeded,
      markPrevNodeAsNeeded, List.not_mem_nil, or_false]
    exact ⟨fun hmem => ⟨hall hmem, hmem⟩, And.right⟩

/-- The names that come out are those that any of the visits asks for, unless one asks for all. -/
theorem foldl_names : ∀ (visits : List Visit) (state : BuiltInsParserState), Valid state →
    Valid (visits.foldl Visit.apply state) ∧
      ∀ nodeName, nodeName ∈ (visits.foldl Visit.apply state).neededNodeNames ↔
        (visits.foldl Visit.apply state).needsAllNodes = false ∧
          (nodeName ∈ state.neededNodeNames ∨
            ∃ visit ∈ visits, nodeName ∈ visit.asks.neededNodeNames)
  | [], state, h => by
    refine ⟨h, fun nodeName => ?_⟩
    rw [List.foldl_nil]
    simpa [Mark.apply] using mem_names_apply h .nothing nodeName
  | visit :: visits, state, h => by
    obtain ⟨mark, hmark⟩ := visit.exists_mark
    rw [List.foldl_cons]
    have hvalid : Valid (visit.apply state) := hmark state ▸ valid_apply h mark
    obtain ⟨hresult, hnames⟩ := foldl_names visits _ hvalid
    refine ⟨hresult, fun nodeName => ?_⟩
    have hall := isFlag_needsAllNodes.foldl visits (visit.apply state)
    rw [hnames, List.exists_mem_cons_iff, ← or_assoc]
    refine and_congr_right fun hfalse => or_congr_left ?_
    rw [hall, Bool.or_eq_false_iff] at hfalse
    have happlied := hfalse.1
    unfold Visit.asks
    rw [hmark] at happlied ⊢
    rw [hmark, mem_names_apply h mark, happlied]
    exact and_iff_right rfl

/-! ## Requests -/

/-- The same is asked for, in whichever order the nodes are named. -/
structure SameRequest (params params' : TaskDataRequestParams) : Prop where
  env : params.env = params'.env
  input : params.input = params'.input
  prevNode : params.prevNode = params'.prevNode
  dataOfNodes : params.dataOfNodes = .all ∧ params'.dataOfNodes = .all ∨
    ∃ names names', params.dataOfNodes = .nodes names ∧ params'.dataOfNodes = .nodes names' ∧
      names.Perm names'

/-- The order of the visits does not matter. -/
theorem sameRequest_of_perm {visits visits' : List Visit} (h : visits.Perm visits')
    (chunk : Option InputDataChunkDefinition) :
    SameRequest ((visits.foldl Visit.apply {}).toDataRequestParams chunk)
      ((visits'.foldl Visit.apply {}).toDataRequestParams chunk) := by
  have hflag {flag : BuiltInsParserState → Bool} (hflag : IsFlag flag) :
      flag (visits.foldl Visit.apply {}) = flag (visits'.foldl Visit.apply {}) := by
    rw [hflag.foldl, hflag.foldl, h.any_eq]
  have hempty : Valid {} := ⟨fun _ => rfl, List.nodup_nil⟩
  obtain ⟨hvalid, hnames⟩ := foldl_names visits {} hempty
  obtain ⟨hvalid', hnames'⟩ := foldl_names visits' {} hempty
  have hall := hflag isFlag_needsAllNodes
  refine ⟨hflag isFlag_needsEnv, ?_, hflag isFlag_needsPrevNode, ?_⟩
  · unfold toDataRequestParams
    exact congrArg (InputDataRequestParams.mk · chunk) (hflag isFlag_needsInput)
  · unfold toDataRequestParams
    dsimp only
    rw [← hall]
    split_ifs
    · exact .inl ⟨rfl, rfl⟩
    · refine .inr ⟨_, _, rfl, rfl, ?_⟩
      refine (List.perm_ext_iff_of_nodup hvalid.nodup hvalid'.nodup).2 fun nodeName => ?_
      rw [hnames, hnames', hall]
      simp only [h.mem_iff]

/-- The property of a member access is known, and is none that goes back over paired items. -/
def IsKnown (property : AstNode) (computed : Bool) : Prop :=
  if computed then ∃ value, property = .literal value ∧ isPairedItemProperty value = false
  else ∀ name, property = .identifier name → isPairedItemProperty (.string name) = false

/-- The property is computed, and is neither a literal nor an identifier. -/
def IsExpression (property : AstNode) : Prop :=
  (∀ value, property ≠ .literal value) ∧ ∀ name, property ≠ .identifier name

/-- All nodes are asked for; or the node that the call names, of which a known property is read. -/
def Serves (params : TaskDataRequestParams) (parent argument : AstNode) (later : List AstNode) :
    Prop :=
  params.dataOfNodes = .all ∨ ∃ nodeName names property computed,
    argument = .literal (.string nodeName) ∧ params.dataOfNodes = .nodes names ∧
    nodeName ∈ names ∧
    parent = .memberExpression (.callExpression (.identifier "$") (argument :: later)) property
      computed ∧ IsKnown property computed

/-- A call that names a node either asks for all, or a known property of it is read. -/
theorem asks_dollar {parent : AstNode} {nodeName : String} {later : List AstNode}
    (hchild : Child parent
      (.callExpression (.identifier "$") (.literal (.string nodeName) :: later)))
    (hproperty : ∀ object property, parent = .memberExpression object property true →
      ¬ IsExpression property) :
    (Visit.call (.identifier "$") (.literal (.string nodeName) :: later)
        (some parent)).asks.needsAllNodes = true ∨
      nodeName ∈ (Visit.call (.identifier "$") (.literal (.string nodeName) :: later)
        (some parent)).asks.neededNodeNames ∧
      ∃ property computed, parent = .memberExpression (.callExpression (.identifier "$")
        (.literal (.string nodeName) :: later)) property computed ∧ IsKnown property computed := by
  cases hchild with
  | callee | argument | child => exact .inl rfl
  | property object =>
    refine absurd ⟨fun value h => ?_, fun name h => ?_⟩ (hproperty object _ rfl) <;> cases h
  | object _ property computed =>
    cases computed with
    | true =>
      cases property with
      | literal value =>
        cases hpaired : isPairedItemProperty value with
        | true => exact .inl (by simp [Visit.asks, Visit.apply, visitCallExpression,
            visitDollarCallExpression, handlePrevNodeCall, hpaired, markNeedsAllNodes])
        | false =>
          refine .inr ⟨?_, _, true, rfl, ?_⟩
          · simp [Visit.asks, Visit.apply, visitCallExpression, visitDollarCallExpression,
              handlePrevNodeCall, hpaired, markNodeAsNeeded]
          · exact ⟨value, rfl, hpaired⟩
      | identifier name => exact .inl rfl
      | callExpression callee arguments =>
        refine absurd ⟨fun value h => ?_, fun name h => ?_⟩ (hproperty _ _ rfl) <;> cases h
      | memberExpression object property computed =>
        refine absurd ⟨fun value h => ?_, fun name h => ?_⟩ (hproperty _ _ rfl) <;> cases h
      | other type children =>
        refine absurd ⟨fun value h => ?_, fun name h => ?_⟩ (hproperty _ _ rfl) <;> cases h
    | false =>
      by_cases hpaired : ∃ name, property = .identifier name ∧
          isPairedItemProperty (.string name) = true
      · obtain ⟨name, rfl, hpaired⟩ := hpaired
        exact .inl (by simp [Visit.asks, Visit.apply, visitCallExpression,
          visitDollarCallExpression, handlePrevNodeCall, hpaired, markNeedsAllNodes])
      · have hknown : ∀ name, property = .identifier name →
            isPairedItemProperty (.string name) = false := fun name hname =>
          Bool.eq_false_iff.2 fun h => hpaired ⟨name, hname, h⟩
        refine .inr ⟨?_, property, false, rfl, hknown⟩
        cases property with
        | identifier name =>
          simp [Visit.asks, Visit.apply, visitCallExpression, visitDollarCallExpression,
            handlePrevNodeCall, hknown name rfl, markNodeAsNeeded]
        | literal | callExpression | memberExpression | other =>
          simp [Visit.asks, Visit.apply, visitCallExpression, visitDollarCallExpression,
            handlePrevNodeCall, markNodeAsNeeded]

theorem identify_eq_foldl (program : AstNode) :
    identifyBuiltInsByWalkingAst program = (visits none program).foldl Visit.apply {} :=
  ancestor_eq_foldl [] program {}

theorem serves_dollar {program parent argument : AstNode} {later : List AstNode}
    (hcall : Within program parent (.callExpression (.identifier "$") (argument :: later)))
    (hstring : ∀ raw, argument ≠ .literal (.other raw))
    (hproperty : ∀ object property, parent = .memberExpression object property true →
      ¬ IsExpression property) (chunk : Option InputDataChunkDefinition) :
    Serves ((identifyBuiltInsByWalkingAst program).toDataRequestParams chunk) parent argument
      later := by
  have hvisit := mem_visits_of_within hcall
  have hall (h : (Visit.call (.identifier "$") (argument :: later)
      (some parent)).asks.needsAllNodes = true) :
      (identifyBuiltInsByWalkingAst program).needsAllNodes = true := by
    rw [identify_eq_foldl, isFlag_needsAllNodes.foldl]
    exact Bool.or_eq_true_iff.2 (.inr (List.any_eq_true.2 ⟨_, hvisit, h⟩))
  unfold Serves toDataRequestParams
  dsimp only
  by_cases hneeds : (identifyBuiltInsByWalkingAst program).needsAllNodes = true
  · exact .inl (if_pos hneeds)
  · right
    rw [if_neg hneeds]
    -- an argument that is not a literal would have asked for all nodes
    cases argument with
    | identifier | callExpression | memberExpression | other => exact absurd (hall rfl) hneeds
    | literal value =>
      cases value with
      | other raw => exact absurd rfl (hstring raw)
      | string nodeName =>
        rcases asks_dollar hcall.2 hproperty with hasks | ⟨hname, property, computed, hparent, hknown⟩
        · exact absurd (hall hasks) hneeds
        · refine ⟨nodeName, _, property, computed, rfl, rfl, ?_, hparent, hknown⟩
          rw [identify_eq_foldl] at hneeds ⊢
          rw [(foldl_names _ {} ⟨fun _ => rfl, List.nodup_nil⟩).2]
          exact ⟨Bool.eq_false_iff.2 hneeds, .inr ⟨_, hvisit, hname⟩⟩

/-- A call of `$` gets the data it may access: all nodes are requested, or the one it names, of which
a known property is read that does not go back over paired items. Left out are arguments that are
other literals, for which no node is requested, and properties that are computed by an expression. -/
theorem never_under_requests (program : AstNode) (chunk : Option InputDataChunkDefinition)
    {parent argument : AstNode} {later : List AstNode}
    (hcall : Within program parent (.callExpression (.identifier "$") (argument :: later)))
    (hstring : ∀ raw, argument ≠ .literal (.other raw))
    (hproperty : ∀ object property, parent = .memberExpression object property true →
      ¬ IsExpression property) :
    Serves ((identifyBuiltInsByWalkingAst program).toDataRequestParams chunk) parent argument
        later ∧
      ∀ order : List Visit, order.Perm (visits none program) →
        SameRequest ((identifyBuiltInsByWalkingAst program).toDataRequestParams chunk)
          ((order.foldl Visit.apply {}).toDataRequestParams chunk) := by
  refine ⟨serves_dollar hcall hstring hproperty chunk, fun order horder => ?_⟩
  rw [identify_eq_foldl]
  exact sameRequest_of_perm horder.symm chunk

/-! ### Programs -/

/-- `$(argument).first()` -/
def firstOf (argument : LiteralValue) : AstNode :=
  .callExpression (.memberExpression (.callExpression (.identifier "$") [.literal argument])
    (.identifier "first") false) []

def programOf (statements : List AstNode) : AstNode := .other "Program" statements

theorem within_programOf (argument : LiteralValue) :
    Within (programOf [firstOf argument])
      (.memberExpression (.callExpression (.identifier "$") [.literal argument])
        (.identifier "first") false)
      (.callExpression (.identifier "$") [.literal argument]) :=
  ⟨.tail (.single (.child List.mem_cons_self)) (.callee _ _), .object _ _ _⟩

theorem serves_first : Serves ((identifyBuiltInsByWalkingAst
    (programOf [firstOf (.string "Webhook")])).toDataRequestParams none)
    (.memberExpression (.callExpression (.identifier "$") [.literal (.string "Webhook")])
      (.identifier "first") false) (.literal (.string "Webhook")) [] :=
  (never_under_requests _ none (within_programOf (.string "Webhook")) (fun raw h => by cases h)
    fun object property h => by cases h).1

/-- No node is requested for `$(123)`, and the order of the calls shows in the list of the nodes. -/
theorem number_not_served :
    (Within (programOf [firstOf (.other "123")])
        (.memberExpression (.callExpression (.identifier "$") [.literal (.other "123")])
          (.identifier "first") false)
        (.callExpression (.identifier "$") [.literal (.other "123")]) ∧
      ¬ Serves ((identifyBuiltInsByWalkingAst
          (programOf [firstOf (.other "123")])).toDataRequestParams none)
        (.memberExpression (.callExpression (.identifier "$") [.literal (.other "123")])
          (.identifier "first") false) (.literal (.other "123")) []) ∧
    ∃ order : List Visit, order.Perm (visits none
        (programOf [firstOf (.string "Webhook"), firstOf (.string "Set")])) ∧
      ((order.foldl Visit.apply {}).toDataRequestParams none).dataOfNodes ≠
        ((identifyBuiltInsByWalkingAst (programOf [firstOf (.string "Webhook"),
          firstOf (.string "Set")])).toDataRequestParams none).dataOfNodes := by
  refine ⟨⟨within_programOf _, ?_⟩, _, List.reverse_perm _, by decide⟩
  rintro (hall | ⟨nodeName, names, property, computed, hargument, -⟩)
  · revert hall
    decide
  · cases hargument

end BuiltInsParser

end N8n
