import Callsite.Proofs.Flow.Propagation

/-!
# Binding nodes

Nodes are added and bound to each other in any order, cycles included.  Every binding
ends, and after it each node has the union of the fixed types it reaches: what has been
bound decides the types, not when.
-/

namespace Callsite

open FlowGraph TypeTable

variable {s s' : Session} {node : NodeId} {waiting : List Observer} {options : InferenceOptions}
variable {t : TypeTable} {g : FlowGraph}

/-! ## Adding nodes and edges -/

namespace FlowGraph.Settling

variable {input : NodeId} {inputs : List NodeId}

/-- A node may wait although nothing has changed. -/
theorem wait (h : Settling t g []) (node : NodeId) : Settling t g [.node node] where
  __ := h
  queued := by simp
  settled := fun other hrule _ => h.settled other hrule (by simp)

theorem addEdge (h : Settling t g waiting) (hwaiting : .node node ∈ waiting)
    (hinput : input.index < g.size) : Settling t (g.addEdge node input) waiting := by
  have hmore : ∀ other x, x ∈ (g.get other).inputs →
      x ∈ ((g.addEdge node input).get other).inputs := by
    intro other x hx
    rw [inputs_addEdge]
    split
    · exact List.mem_append_left _ hx
    · exact hx
  have htypes : ∀ other v, v ∈ g.inputTypes other →
      v ∈ (g.addEdge node input).inputTypes other := by
    intro other v hv
    obtain ⟨x, hx, htype⟩ := mem_inputTypes.1 hv
    exact mem_inputTypes.2 ⟨x, hmore other x hx, by rw [typeOf_addEdge, htype]⟩
  refine ⟨h.regular, h.overClasses, h.linked.addEdge hinput, ?_, h.queued, ?_, ?_, ?_, ?_, ?_, ?_⟩
  · intro other observer hobserver
    rcases (mem_observers_addEdge g node other input observer).1 hobserver with hold | ⟨-, hnew, -⟩
    · exact h.observers other observer hold
    · exact ⟨node, hnew⟩
  · simpa using h.thawed
  · simpa using h.rules
  · simpa using h.known
  · intro other type hrule htype
    rw [rule_addEdge] at hrule
    rw [typeOf_addEdge] at htype
    have hrises := h.rises other type hrule htype
    refine ⟨?_, fun t' hwidens hregular w hw hunder => ?_⟩
    · obtain ⟨v, hv⟩ := List.exists_mem_of_ne_nil _ hrises.typed
      exact List.ne_nil_of_mem (htypes other v hv)
    · exact hrises.under t' hwidens hregular w hw fun v hv => hunder v (htypes other v hv)
  · intro other type htype
    rw [typeOf_addEdge] at htype
    exact (h.generates other type htype).mono fun d hd =>
      hd.mono (fun x _ => rule_addEdge g node x input) hmore
  · intro other hrule hother
    rw [rule_addEdge] at hrule
    have hne : ¬ node = other := by
      rintro rfl
      exact hother hwaiting
    have hsame : (g.addEdge node input).inputTypes other = g.inputTypes other := by
      rw [inputTypes, inputTypes, inputs_addEdge, if_neg fun hall => hne hall.1]
      exact List.filterMap_congr fun x _ => typeOf_addEdge g node x input
    exact (h.settled other hrule hother).congr hsame (typeOf_addEdge g node other input)

theorem addEdges (h : Settling t g waiting) (hwaiting : .node node ∈ waiting)
    (hinputs : ∀ input ∈ inputs, input.index < g.size) :
    Settling t (inputs.foldl (fun g input => g.addEdge node input) g) waiting := by
  induction inputs generalizing g with
  | nil => exact h
  | cons first rest ih =>
    have hfirst := h.addEdge hwaiting (hinputs first List.mem_cons_self)
    exact ih hfirst fun input hinput => by
      simpa using hinputs input (List.mem_cons_of_mem first hinput)

/-- A node without inputs joins the graph: one that joins, or one of a fixed type. -/
theorem push {fresh : FlowNode} (h : Settling t g []) (hblank : fresh.IsBlank)
    (hfrozen : fresh.frozen = false)
    (hrule : (fresh.rule = .union ∧ fresh.type = none) ∨
      ∃ d, fresh.rule = .pinned d ∧ fresh.type = some d ∧ t.Known d) :
    Settling t ⟨g.nodes.push fresh⟩ [] := by
  let g' : FlowGraph := ⟨g.nodes.push fresh⟩
  have hget : ∀ node, g'.get node = if node.index = g.size then fresh else g.get node :=
    fun node => g.get_push node fresh
  have hinputs : ∀ node, (g'.get node).inputs = (g.get node).inputs :=
    fun node => g.inputs_push node hblank
  have htypes : ∀ node, g'.inputTypes node = g.inputTypes node := by
    intro node
    rw [inputTypes, inputTypes, hinputs]
    exact List.filterMap_congr fun input hinput =>
      g.typeOf_push_of_lt input fresh (h.linked node input hinput).1
  -- A node that is not there joins and has no type.
  have hcases : ∀ node, (g'.typeOf node = g.typeOf node ∧ (g'.get node).rule = (g.get node).rule) ∨
      ∃ d, (g'.get node).rule = .pinned d ∧ g'.typeOf node = some d ∧ t.Known d := by
    intro node
    rw [typeOf, typeOf, hget]
    split
    · rw [g.get_of_not_lt node (by omega)]
      exact hrule.imp_left And.symm
    · exact Or.inl ⟨rfl, rfl⟩
  have hrules : ∀ node, node.index < g.size → (g'.get node).rule = (g.get node).rule := by
    intro node hlt
    rw [hget, if_neg (hlt.ne)]
  change Settling t g' []
  constructor
  case regular => exact h.regular
  case overClasses => exact h.overClasses
  case linked =>
    exact h.linked.of_same (by simp [g']) hinputs fun node other hobserver => by
      rwa [g.observers_push node hblank]
  case observers =>
    intro node observer hobserver
    rw [g.observers_push node hblank] at hobserver
    exact h.observers node observer hobserver
  case queued => simp
  case thawed =>
    intro node
    rw [hget]
    split
    · exact hfrozen
    · exact h.thawed node
  case rules =>
    intro node
    rcases hcases node with ⟨htype, hsame⟩ | ⟨d, hpinned, htype, -⟩
    · rw [htype, hsame]
      exact h.rules node
    · exact Or.inr ⟨d, hpinned, htype⟩
  case known =>
    intro node type htype
    rcases hcases node with ⟨hsame, -⟩ | ⟨d, -, hd, hk⟩
    · exact h.known node type (hsame.symm.trans htype)
    · exact Option.some.inj (hd.symm.trans htype) ▸ hk
  case rises =>
    intro node type hunion htype
    rcases hcases node with ⟨hsame, hrule⟩ | ⟨d, hpinned, -⟩
    · have hrises := h.rises node type (hrule.symm.trans hunion) (hsame.symm.trans htype)
      exact ⟨by rw [htypes]; exact hrises.typed, by rw [htypes]; exact hrises.under⟩
    · simp [hpinned] at hunion
  case generates =>
    intro node type htype
    rcases hcases node with ⟨hsame, -⟩ | ⟨d, hpinned, hd, -⟩
    · refine (h.generates node type (hsame.symm.trans htype)).mono fun d hd => ?_
      exact hd.mono hrules fun x y hy => by rwa [hinputs]
    · obtain rfl := Option.some.inj (hd.symm.trans htype)
      have hself : g'.HasSource node d := ⟨node, .refl node, hpinned⟩
      exact ⟨⟨d, hself⟩, fun t' _ _ w _ hsources => hsources d hself (.refl t' d)⟩
  case settled =>
    intro node hunion _
    rcases hcases node with ⟨hsame, hrule⟩ | ⟨d, hpinned, -⟩
    · exact (h.settled node (hrule.symm.trans hunion) (by simp)).congr (htypes node) hsame
    · simp [hpinned] at hunion

theorem empty (hregular : t.Regular) (hc : t.OverClasses) : Settling t .empty [] := by
  have hget : ∀ node, FlowGraph.empty.get node = default := fun node =>
    get_of_not_lt _ node (Nat.not_lt_zero _)
  have htype : ∀ node, FlowGraph.empty.typeOf node = none := fun node => by
    rfl
  have htypes : ∀ node, FlowGraph.empty.inputTypes node = [] := fun node => by
    rfl
  refine ⟨hregular, hc, ?_, ?_, by simp, ?_, ?_, ?_, ?_, ?_, ?_⟩
  · intro node input hinput
    simp [hget, default] at hinput
  · intro node observer hobserver
    simp [hget, default] at hobserver
  · intro node
    rfl
  · intro node
    exact Or.inl rfl
  · simp [htype]
  · simp [htype]
  · simp [htype]
  · intro node _ _
    exact ⟨fun _ => htype node, fun h => absurd (htypes node) h⟩

end FlowGraph.Settling

/-! ## The least solution -/

/-- Where no node waits, a node has a type that lies above all of its sources. -/
theorem FlowGraph.Settling.typeOf_of_hasSource {d : TypeId} (h : Settling t g [])
    (hd : g.HasSource node d) : ∃ u, g.typeOf node = some u ∧ t.Under d u := by
  obtain ⟨source, hreaches, hpinned⟩ := hd
  induction hreaches with
  | refl node => exact ⟨d, h.typeOf_of_pinned hpinned, .refl t d⟩
  | @step node input source hrule hinput _ ih =>
    obtain ⟨v, htype, hunder⟩ := ih hpinned
    have hmem := mem_inputTypes.2 ⟨input, hinput, htype⟩
    obtain ⟨u, htypeU, hjoins⟩ := (h.settled node hrule (by simp)).joined (List.ne_nil_of_mem hmem)
    have hk := h.known_of_pinned (mem_pinnedTypes.2 ⟨source, hpinned⟩)
    exact ⟨u, htypeU, hunder.trans (hjoins.under hmem) h.overClasses hk⟩

/-- Where no node waits, a node that joins has the union of the fixed types it reaches. -/
theorem FlowGraph.Settling.typeOf_eq_unionOf {types : List TypeId} (h : Settling t g [])
    (hsome : types ≠ []) (htypes : ∀ d, d ∈ types ↔ g.HasSource node d) :
    g.typeOf node = some (unionOf types t).1 := by
  have hk : ∀ d ∈ types, t.Known d := by
    intro d hd
    obtain ⟨source, -, hpinned⟩ := (htypes d).1 hd
    exact h.known_of_pinned (mem_pinnedTypes.2 ⟨source, hpinned⟩)
  obtain ⟨d, hd⟩ := List.exists_mem_of_ne_nil _ hsome
  obtain ⟨u, htype, -⟩ := h.typeOf_of_hasSource ((htypes d).1 hd)
  have habove : ∀ d ∈ types, t.Under d u := by
    intro d hd
    obtain ⟨u', htype', hunder⟩ := h.typeOf_of_hasSource ((htypes d).1 hd)
    obtain rfl := Option.some.inj (htype.symm.trans htype')
    exact hunder
  have hwidens := unionOf_widens types t
  have hregular := h.regular.unionOf hk
  have hc := hwidens.overClasses h.overClasses
  have hknown := (unionOf_builds h.regular.founded hk).2
  have hjoins := h.regular.unionOf_joins h.overClasses hk
  have hku := hwidens.known (h.known node u htype)
  have hupper : (unionOf types t).2.Under u (unionOf types t).1 :=
    (h.generates node u htype).under _ hwidens hregular _ hknown fun d hd _ =>
      hjoins.under ((htypes d).2 hd)
  have hlower : (unionOf types t).2.Under (unionOf types t).1 u :=
    hjoins.least hku fun d hd => (habove d hd).later hwidens
  rw [htype, hupper.antisymm hlower hregular hc hku hknown]

theorem FlowGraph.Settling.typeOf_eq_none (h : Settling t g waiting)
    (hnone : ∀ d, ¬ g.HasSource node d) : g.typeOf node = none := by
  by_contra hsome
  obtain ⟨type, htype⟩ := Option.ne_none_iff_exists'.1 hsome
  obtain ⟨d, hd⟩ := (h.generates node type htype).sourced
  exact hnone d hd

/-! ## Binding in any order -/

/-- What can be done to the graph. -/
inductive FlowOp where
  | newNode (span : Span)
  | typedNode (type : TypeId) (span : Span)
  | bind (node : NodeId) (inputs : List NodeId)

namespace FlowOp

def run (engine : Engine) : FlowOp → Infer Unit
  | newNode span => do let _ ← Infer.newNode span
  | typedNode type span => do let _ ← Infer.typedNode type span
  | bind node inputs => Infer.connect engine node inputs

def Fits (s : Session) : FlowOp → Prop
  | newNode _ => True
  | typedNode type _ => s.types.Known type
  | bind node inputs => s.HasNode node ∧ ∀ input ∈ inputs, s.HasNode input

end FlowOp

/-- The sessions that operations on the graph lead to, starting with the given types. -/
inductive Session.Bound (types : TypeTable) (options : InferenceOptions) : Session → Prop
  | start : Bound types options { Session.start options with types := types }
  | step {s s' : Session} {engine : Engine} {op : FlowOp} (h : Bound types options s)
      (hfits : op.Fits s) (hrun : op.run engine s = .ok () s') : Bound types options s'

namespace FlowOp

/-- Every operation ends, given enough budget, and leaves no node waiting. -/
theorem run_settles {op : FlowOp} (h : Settling s.types s.flow [])
    (hdepth : s.propagationDepth < s.options.maxPropagationDepth) (hfits : op.Fits s) :
    Infer.Settles op.run s := by
  cases op with
  | newNode span =>
    have hpush : Settling s.types ⟨s.flow.nodes.push ⟨none, [], [], .union, false, span⟩⟩ [] :=
      h.push ⟨rfl, rfl⟩ rfl (Or.inl ⟨rfl, rfl⟩)
    exact Infer.Settles.of_eq s.types _ (fun engine => rfl) (.done hpush)
  | typedNode type span =>
    have hpush : Settling s.types
        ⟨s.flow.nodes.push ⟨some type, [], [], .pinned type, false, span⟩⟩ [] :=
      h.push ⟨rfl, rfl⟩ rfl (Or.inr ⟨type, rfl, rfl, hfits⟩)
    exact Infer.Settles.of_eq s.types _ (fun engine => rfl) (.done hpush)
  | bind node inputs =>
    have hedges : Settling s.types
        (inputs.foldl (fun g input => g.addEdge node input) s.flow) [.node node] :=
      (h.wait node).addEdges List.mem_cons_self hfits.2
    exact Infer.Settles.of_eq s.types _ (fun engine => rfl) (Infer.update_settles hedges hdepth)

end FlowOp

/-- Whatever has been bound, no node waits between two operations. -/
theorem Session.Bound.settling (h : Bound t options s) (hr : t.Reached) (hc : t.OverClasses)
    (hlimit : 1 ≤ options.maxPropagationDepth) :
    Settling s.types s.flow [] ∧ s.propagationDepth < s.options.maxPropagationDepth := by
  induction h with
  | start =>
    have hnil : t.Known .nil := Nat.lt_of_le_of_lt (by decide) hr.regular.founded.standard
    exact ⟨(Settling.empty hr.regular hc).push ⟨rfl, rfl⟩ rfl (Or.inr ⟨.nil, rfl, rfl, hnil⟩),
      hlimit⟩
  | @step s s' engine op _ hfits hrun ih =>
    obtain ⟨bound, hbound⟩ := FlowOp.run_settles ih.1 ih.2 hfits
    obtain ⟨t', g', w, rfl, hsettling⟩ := (hbound engine).2 s' hrun
    exact ⟨hsettling, ih.2⟩

/-- Nodes may be bound in any order and in cycles: every operation ends without failure, and a
node has no type if it reaches no fixed one, and otherwise the union of all the fixed types
it reaches. -/
theorem Session.Bound.types_least {options : InferenceOptions} (hr : t.Reached) (hc : t.OverClasses)
    (hlimit : 1 ≤ options.maxPropagationDepth) (h : Bound t options s) :
    (∀ op : FlowOp, op.Fits s → ∃ bound, ∀ engine : Engine, bound ≤ engine.budget →
      ∃ s', op.run engine s = .ok () s') ∧
    ∀ node, ((∀ d, ¬ s.flow.HasSource node d) → s.typeOf node = none) ∧
      ∀ types : List TypeId, types ≠ [] → (∀ d, d ∈ types ↔ s.flow.HasSource node d) →
        s.typeOf node = some (TypeTable.unionOf types s.types).1 := by
  obtain ⟨hsettling, hdepth⟩ := h.settling hr hc hlimit
  refine ⟨fun op hfits => ?_, fun node => ⟨fun hnone => ?_, fun types hsome htypes => ?_⟩⟩
  · obtain ⟨bound, hbound⟩ := FlowOp.run_settles hsettling hdepth hfits
    exact ⟨bound, fun engine hle => (hbound engine).1 hle⟩
  · exact hsettling.typeOf_eq_none hnone
  · exact hsettling.typeOf_eq_unionOf hsome htypes

/-! ## A cycle -/

/-- The session that a computation leads to, and whether it returns. -/
def Infer.after (x : Infer Unit) (s : Session) : Bool × Session :=
  match x s with
  | .ok _ s' => (true, s')
  | .error _ s' => (false, s')

theorem Infer.returns_after {x : Infer Unit} (h : (after x s).1 = true) :
    x s = .ok () (after x s).2 := by
  rw [after] at h ⊢
  cases hrun : x s with
  | ok a s' => rfl
  | error halt s' => simp [hrun] at h

namespace FlowOp

instance (s : Session) : (op : FlowOp) → Decidable (op.Fits s)
  | newNode _ => .isTrue trivial
  | typedNode type _ => inferInstanceAs (Decidable (type.index < s.types.size))
  | bind node inputs => inferInstanceAs
      (Decidable (node.index < s.flow.size ∧ ∀ input ∈ inputs, input.index < s.flow.size))

/-- An engine for graphs without calls. -/
def smallEngine : Engine := ⟨100, fun _ _ => throw .outOfFuel, fun _ => throw .outOfFuel⟩

/-- The session that operations lead to, if they all fit and return. -/
def runAll : List FlowOp → Session → Option Session
  | [], s => some s
  | op :: ops, s =>
    if op.Fits s ∧ (Infer.after (op.run smallEngine) s).1 then
      runAll ops (Infer.after (op.run smallEngine) s).2
    else none

theorem bound_of_runAll {ops : List FlowOp} (h : Session.Bound t options s)
    (hrun : runAll ops s = some s') : Session.Bound t options s' := by
  induction ops generalizing s with
  | nil =>
    cases hrun
    exact h
  | cons op ops ih =>
    rw [runAll] at hrun
    split at hrun
    next hok => exact ih (.step h hok.1 (Infer.returns_after hok.2)) hrun
    next => simp at hrun

/-- Two nodes that are bound to each other, one also to a `Bar` and the other to a `Baz`. -/
def cycle : List FlowOp :=
  [newNode .absent, typedNode ⟨15⟩ .absent, typedNode ⟨16⟩ .absent, newNode .absent,
    bind ⟨1⟩ [⟨2⟩, ⟨4⟩], bind ⟨4⟩ [⟨1⟩, ⟨3⟩]]

/-- The nodes that the first one reaches. -/
def cycleNodes : List NodeId :=
  [⟨1⟩, ⟨2⟩, ⟨3⟩, ⟨4⟩]

/-- The session after the cycle has been bound. -/
def cycleSession : Session :=
  (runAll cycle { Session.start ⟨100, 1, false, false⟩ with types := .family }).getD default

/-- The operations fit, and leave a graph of the two nodes and what they are bound to. -/
theorem cycleSession_graph :
    (runAll cycle { Session.start ⟨100, 1, false, false⟩ with types := .family }).isSome = true ∧
    (∀ node ∈ cycleNodes, (cycleSession.flow.get node).rule =
      if node = ⟨2⟩ then .pinned ⟨15⟩ else if node = ⟨3⟩ then .pinned ⟨16⟩ else .union) ∧
    ∀ node ∈ cycleNodes, (cycleSession.flow.get node).inputs =
      if node = ⟨1⟩ then [⟨2⟩, ⟨4⟩] else if node = ⟨4⟩ then [⟨1⟩, ⟨3⟩] else [] := by
  decide +kernel

theorem cycleSession_bound : Session.Bound .family ⟨100, 1, false, false⟩ cycleSession := by
  obtain ⟨s, hs⟩ := Option.isSome_iff_exists.1 cycleSession_graph.1
  have hbound := bound_of_runAll .start hs
  rw [cycleSession, hs]
  exact hbound

/-- From the first node, the nodes of the cycle and the two fixed ones are reached. -/
theorem cycleSession_sources (d : TypeId) :
    d ∈ [⟨15⟩, ⟨16⟩] ↔ cycleSession.flow.HasSource ⟨1⟩ d := by
  obtain ⟨-, hrule, hinputs⟩ := cycleSession_graph
  constructor
  · intro hd
    have hone : ∀ input ∈ [(⟨2⟩ : NodeId), ⟨4⟩], input ∈ (cycleSession.flow.get ⟨1⟩).inputs := by
      rw [hinputs ⟨1⟩ (by decide)]
      decide
    have hfour : (⟨3⟩ : NodeId) ∈ (cycleSession.flow.get ⟨4⟩).inputs := by
      rw [hinputs ⟨4⟩ (by decide)]
      decide
    have hunion := hrule ⟨1⟩ (by decide)
    simp only [List.mem_cons, List.not_mem_nil, or_false] at hd
    rcases hd with rfl | rfl
    · exact ⟨⟨2⟩, .step hunion (hone ⟨2⟩ (by decide)) (.refl _), hrule ⟨2⟩ (by decide)⟩
    · exact ⟨⟨3⟩,
        .step hunion (hone ⟨4⟩ (by decide)) (.step (hrule ⟨4⟩ (by decide)) hfour (.refl _)),
        hrule ⟨3⟩ (by decide)⟩
  · rintro ⟨source, hreaches, hpinned⟩
    have hclosed : ∀ node source, cycleSession.flow.Reaches node source → node ∈ cycleNodes →
        source ∈ cycleNodes := by
      intro node source h
      induction h with
      | refl => exact id
      | @step node input source _ hinput _ ih =>
        intro hnode
        have hsub : ∀ x ∈ (cycleSession.flow.get node).inputs, x ∈ cycleNodes := by
          rw [hinputs node hnode]
          split
          · decide
          · split <;> decide
        exact ih (hsub input hinput)
    rw [hrule source (hclosed _ source hreaches (by decide))] at hpinned
    split at hpinned
    · obtain rfl := Rule.pinned.inj hpinned
      decide
    · split at hpinned
      · obtain rfl := Rule.pinned.inj hpinned
        decide
      · simp at hpinned

end FlowOp

/-- Both the `Bar` and the `Baz` arrive at the first node of the cycle, whose type is `Foo+`;
binding it once more ends as well. -/
theorem Session.Bound.types_least_cycle :
    FlowOp.cycleSession.typeOf ⟨1⟩ = some ⟨17⟩ ∧
      (TypeTable.unionOf [⟨15⟩, ⟨16⟩] FlowOp.cycleSession.types).1 = ⟨17⟩ ∧
      ∃ bound, ∀ engine : Engine, bound ≤ engine.budget →
        ∃ s', (FlowOp.bind ⟨4⟩ [⟨2⟩]).run engine FlowOp.cycleSession = .ok () s' := by
  have hleast := Session.Bound.types_least TypeTable.family_reached (by decide +kernel) (by decide)
    FlowOp.cycleSession_bound
  have htype := (hleast.2 ⟨1⟩).2 [⟨15⟩, ⟨16⟩] (by simp) FlowOp.cycleSession_sources
  have hunion :
      (TypeTable.unionOf [⟨15⟩, ⟨16⟩] FlowOp.cycleSession.types).1 = ⟨17⟩ := by decide +kernel
  refine ⟨by rw [htype, hunion], hunion, hleast.1 (.bind ⟨4⟩ [⟨2⟩]) (by decide +kernel)⟩

end Callsite
