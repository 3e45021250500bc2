import Callsite.Proofs.View.Building

/-!
# Views of a session

A view of a session has other spans, higher depth limits and another setting for suggestions.
Everything else is as in the session itself, and so is what is read from it.
-/

namespace Callsite

open FlowGraph

/-- How a run is looked at: the spans that it shows, the room that is added to its two depth
limits, and whether it suggests names. -/
structure View where
  span : Span → Span
  bodies : Nat
  waves : Nat
  suggestions : Bool → Bool
  /-- Code that nobody wrote has no span in any view. -/
  absent : span .absent = .absent

namespace View

variable (v : View)

def argument (arg : Argument) : Argument :=
  { arg with span := v.span arg.span }

def block (block : BlockSite) : BlockSite :=
  { block with body := block.body.map (Expr.respan v.span) }

def site (site : CallSite) : CallSite :=
  { site with
    args := site.args.map v.argument
    block := site.block.map v.block
    span := v.span site.span }

def node (node : FlowNode) : FlowNode :=
  { node with span := v.span node.span }

def flow (g : FlowGraph) : FlowGraph :=
  ⟨g.nodes.map v.node⟩

def options (o : InferenceOptions) : InferenceOptions :=
  { o with
    maxInstantiationDepth := o.maxInstantiationDepth + v.bodies
    maxPropagationDepth := o.maxPropagationDepth + v.waves
    suggestions := v.suggestions o.suggestions }

/-- A session in a view. -/
def session (s : Session) : Session :=
  { s with
    types := s.types.respan v.span
    flow := v.flow s.flow
    calls := s.calls.map v.site
    options := v.options s.options }

/-! ## Flow graphs -/

theorem map_modify {α β : Type} {f : α → α} {h : β → β} {g : α → β}
    (hf : ∀ a, g (f a) = h (g a)) (xs : Array α) (i : Nat) :
    (xs.modify i f).map g = (xs.map g).modify i h := by
  apply Array.ext
  · simp
  · intro j hj hj'
    simp only [Array.getElem_map, Array.getElem_modify]
    split
    · exact hf _
    · rfl

section Flow

variable (g : FlowGraph)

section

variable (n : FlowNode)

@[simp] theorem node_type : (v.node n).type = n.type := rfl

@[simp] theorem node_observers : (v.node n).observers = n.observers := rfl

@[simp] theorem node_frozen : (v.node n).frozen = n.frozen := rfl

@[simp] theorem node_span : (v.node n).span = v.span n.span := rfl

end

theorem flow_eq (hspan : v.span = id) : v.flow g = g := by
  have hnode : v.node = id := by
    funext n
    rw [node, hspan]
    rfl
  rw [flow, hnode, Array.map_id]

theorem node_default : v.node default = default := by
  change (⟨none, [], [], .union, false, v.span .absent⟩ : FlowNode) = default
  rw [v.absent]
  rfl

@[simp] theorem flow_get (id : NodeId) : (v.flow g).get id = v.node (g.get id) := by
  rw [FlowGraph.get, FlowGraph.get, flow, Array.getElem?_map]
  cases g.nodes[id.index]? with
  | none => exact v.node_default.symm
  | some node => rfl

@[simp] theorem flow_typeOf (id : NodeId) : (v.flow g).typeOf id = g.typeOf id := by
  rw [typeOf, typeOf, flow_get]
  rfl

@[simp] theorem flow_inputTypes (id : NodeId) : (v.flow g).inputTypes id = g.inputTypes id := by
  have htype : (v.flow g).typeOf = g.typeOf := funext (v.flow_typeOf g)
  rw [inputTypes, inputTypes, flow_get, htype]
  rfl

@[simp] theorem flow_joined (id : NodeId) : (v.flow g).joined id = g.joined id := by
  rw [joined, joined, flow_get, flow_inputTypes]
  rfl

theorem derive_respans (id : NodeId) : Respans v.span (g.derive id) ((v.flow g).derive id) := by
  unfold derive
  rw [flow_inputTypes, flow_get]
  cases g.inputTypes id with
  | nil => exact .pure _
  | cons type types => exact (Rule.derive_respans v.absent (g.get id).rule _).map some

theorem flow_modify {f h : FlowNode → FlowNode} (hf : ∀ node, v.node (f node) = h (v.node node))
    (id : NodeId) : v.flow (g.modify id f) = (v.flow g).modify id h := by
  rw [FlowGraph.modify, FlowGraph.modify, flow, map_modify hf, flow]

theorem flow_add (rule : Rule) (span : Span) :
    (v.flow g).add rule (v.span span) = ((g.add rule span).1, v.flow (g.add rule span).2) := by
  simp [add, flow, node, size]

theorem flow_addTyped (type : TypeId) (span : Span) : (v.flow g).addTyped type (v.span span)
      = ((g.addTyped type span).1, v.flow (g.addTyped type span).2) := by
  simp [addTyped, flow, node, size]

section

variable (id : NodeId)

theorem flow_setType (type : Option TypeId) :
    v.flow (g.setType id type) = (v.flow g).setType id type := by
  apply flow_modify
  exact fun _ => rfl

theorem flow_setFrozen (frozen : Bool) :
    v.flow (g.setFrozen id frozen) = (v.flow g).setFrozen id frozen := by
  apply flow_modify
  exact fun _ => rfl

theorem flow_addObserver (observer : Observer) :
    v.flow (g.addObserver id observer) = (v.flow g).addObserver id observer := by
  apply flow_modify
  intro node
  change v.node _ = if node.observers.contains observer then _ else _
  split <;> rfl

theorem flow_removeObserver (observer : Observer) :
    v.flow (g.removeObserver id observer) = (v.flow g).removeObserver id observer := by
  apply flow_modify
  exact fun _ => rfl

theorem flow_addEdge (input : NodeId) :
    v.flow (g.addEdge id input) = (v.flow g).addEdge id input := by
  have hnew : (v.flow g).isNewEdge id input = g.isNewEdge id input := by
    rw [isNewEdge, isNewEdge, flow_get]
    rfl
  rw [addEdge, addEdge, hnew]
  split
  · rw [flow_addObserver]
    congr 1
    apply flow_modify
    exact fun _ => rfl
  · rfl

theorem flow_removeEdge (input : NodeId) :
    v.flow (g.removeEdge id input) = (v.flow g).removeEdge id input := by
  rw [removeEdge, removeEdge, flow_removeObserver]
  congr 1
  apply flow_modify
  exact fun _ => rfl

end

theorem flow_foldl {α : Type} {f : FlowGraph → α → FlowGraph}
    (hf : ∀ g a, v.flow (f g a) = f (v.flow g) a) (l : List α) :
    v.flow (l.foldl f g) = l.foldl f (v.flow g) := by
  induction l generalizing g with
  | nil => rfl
  | cons a l ih => rw [List.foldl_cons, List.foldl_cons, ih, hf]

end Flow

/-! ## Calls -/

section Calls

variable (c : CallSite)

section

variable (b : BlockSite)

@[simp] theorem block_body : (v.block b).body = b.body.map (Expr.respan v.span) := rfl

@[simp] theorem block_scope : (v.block b).scope = b.scope := rfl

@[simp] theorem block_visit : (v.block b).visit = b.visit := rfl

end

@[simp] theorem site_node : (v.site c).node = c.node := rfl

@[simp] theorem site_name : (v.site c).name = c.name := rfl

@[simp] theorem site_receiver : (v.site c).receiver = c.receiver := rfl

@[simp] theorem site_args : (v.site c).args = c.args.map v.argument := rfl

@[simp] theorem site_block : (v.site c).block = c.block.map v.block := rfl

@[simp] theorem site_blockArg : (v.site c).blockArg = c.blockArg := rfl

@[simp] theorem site_hasParens : (v.site c).hasParens = c.hasParens := rfl

@[simp] theorem site_scope : (v.site c).scope = c.scope := rfl

@[simp] theorem site_span : (v.site c).span = v.span c.span := rfl

@[simp] theorem site_targets : (v.site c).targets = c.targets := rfl

@[simp] theorem site_resolved : (v.site c).resolved = c.resolved := rfl

@[simp] theorem site_signature : (v.site c).signature = c.signature := rfl

@[simp] theorem site_paramEdges : (v.site c).paramEdges = c.paramEdges := rfl

@[simp] theorem site_blockEdges : (v.site c).blockEdges = c.blockEdges := rfl

theorem argNodes_map (args : List Argument) :
    (args.map v.argument).map (·.node) = args.map (·.node) := by
  rw [List.map_map]
  rfl

@[simp] theorem site_argNodes : (v.site c).argNodes = c.argNodes :=
  v.argNodes_map c.args

@[simp] theorem site_inputs : (v.site c).inputs = c.inputs := by
  rw [CallSite.inputs, site_argNodes]
  rfl

@[simp] theorem site_hasBlock : (v.site c).hasBlock = c.hasBlock :=
  Option.isSome_map

theorem site_default : v.site default = default := by
  change v.site (.fresh default "" none default .absent) = _
  rw [CallSite.fresh, site, v.absent]
  rfl

end Calls

/-! ## Sessions -/

section Session

variable (s : Session)

@[simp] theorem session_types : (v.session s).types = s.types.respan v.span := rfl

@[simp] theorem session_method (id : MethodId) :
    (v.session s).types.method id = (s.types.method id).respan v.span :=
  s.types.method_respan v.absent id

@[simp] theorem session_flow : (v.session s).flow = v.flow s.flow := rfl

@[simp] theorem session_call (id : CallId) : (v.session s).call id = v.site (s.call id) := by
  rw [Session.call, Session.call, session, Array.getElem?_map]
  cases s.calls[id.index]? with
  | none => exact v.site_default.symm
  | some site => rfl

@[simp] theorem session_scope (id : ScopeId) : (v.session s).scope id = s.scope id := rfl

@[simp] theorem session_instanceAt (id : InstanceId) :
    (v.session s).instanceAt id = s.instanceAt id := rfl

@[simp] theorem session_watch : (v.session s).watch = s.watch := rfl

@[simp] theorem session_resultNodes (ids : List InstanceId) :
    (v.session s).resultNodes ids = s.resultNodes ids := rfl

theorem session_typeOf : (v.session s).typeOf = s.typeOf :=
  funext (v.flow_typeOf s.flow)

theorem session_typeName : (v.session s).typeName = s.typeName := by
  funext id
  simp only [Session.typeName, session_typeOf, session_types, TypeTable.name_respan]

@[simp] theorem session_fullName (owner : TypeId) (name : String) :
    (v.session s).fullName owner name = s.fullName owner name := by
  simp only [Session.fullName, session_types, TypeTable.name_respan]

@[simp] theorem session_argTypes (id : CallId) : (v.session s).argTypes id = s.argTypes id := by
  simp only [Session.argTypes, session_call, site_argNodes, session_typeOf]

@[simp] theorem session_inputTypes? (id : CallId) :
    (v.session s).inputTypes? id = s.inputTypes? id := by
  simp only [Session.inputTypes?, session_call, site_inputs, session_typeOf]

@[simp] theorem session_frame (id : CallId) : (v.session s).frame id = s.frame id := by
  unfold Session.frame
  rw [session_call, session_typeName]
  dsimp only
  rw [site_argNodes, site_receiver, site_name]

theorem session_findVarWithin (name : String) (depth : Nat) (id : ScopeId) :
    (v.session s).findVarWithin name depth id = s.findVarWithin name depth id := by
  induction depth generalizing id with
  | zero => rfl
  | succ depth ih => simp only [Session.findVarWithin, session_scope, ih]

@[simp] theorem session_findVar? (scope : ScopeId) (name : String) :
    (v.session s).findVar? scope name = s.findVar? scope name :=
  v.session_findVarWithin s name _ scope

theorem session_bodyScopeWithin (depth : Nat) (id : ScopeId) :
    (v.session s).bodyScopeWithin depth id = s.bodyScopeWithin depth id := by
  induction depth generalizing id with
  | zero => rfl
  | succ depth ih => simp only [Session.bodyScopeWithin, session_scope, ih]

@[simp] theorem session_bodyScope (scope : ScopeId) :
    (v.session s).bodyScope scope = s.bodyScope scope :=
  v.session_bodyScopeWithin s _ scope

end Session

end View

end Callsite
