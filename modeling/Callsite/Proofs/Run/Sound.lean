import Callsite.Proofs.Run.Before
import Mathlib.Data.List.Nodup

/-!
# Sound sessions

The parts of a session fit together: whatever is referred to is there, edges and
observers of the flow graph mirror each other, a call depends exactly on the
results of its targets and observes what it is given, no two blocks have one body, and
the cache holds what its keys ask for.  Every move keeps a session sound.
-/

namespace Callsite

open FlowGraph CallSite

variable {id node input : NodeId} {inputs : List NodeId} {α : Type} {type : TypeId}
  {inst : Instance} {i index : Nat} {ids : List InstanceId} {request : Request}
  {args : List Argument} {arg : Argument} {site : CallSite}

/-! ## Edges and observers -/

/-- Every input of a node is another node, which the node observes. -/
def FlowGraph.Linked (g : FlowGraph) : Prop :=
  ∀ node input, input ∈ (g.get node).inputs →
    input.index < g.size ∧ input ≠ node ∧ .node node ∈ (g.get input).observers

namespace FlowGraph.Linked

variable {g g' : FlowGraph}

variable (h : g.Linked)
include h

/-- Changes that keep the inputs of all nodes and drop no node from the observers. -/
theorem of_same (hsize : g.size ≤ g'.size)
    (hinputs : ∀ node, (g'.get node).inputs = (g.get node).inputs)
    (hobservers : ∀ node other, .node other ∈ (g.get node).observers →
      .node other ∈ (g'.get node).observers) : g'.Linked := by
  intro node input hinput
  rw [hinputs] at hinput
  obtain ⟨hlt, hne, hobserver⟩ := h node input hinput
  exact ⟨hlt.trans_le hsize, hne, hobservers input node hobserver⟩

theorem addEdge {added : NodeId} (hadded : added.index < g.size) : (g.addEdge id added).Linked := by
  intro node input hinput
  rw [size_addEdge, mem_observers_addEdge]
  rw [inputs_addEdge] at hinput
  split at hinput
  next hnew =>
    obtain ⟨rfl, -, hne, hmem⟩ := hnew
    rcases List.mem_append.1 hinput with hold | hlast
    · obtain ⟨hlt, hne', hobserver⟩ := h _ input hold
      exact ⟨hlt, hne', Or.inl hobserver⟩
    · obtain rfl := List.mem_singleton.1 hlast
      have hedge : g.isNewEdge id input = true := by simp [isNewEdge, hne, hmem]
      exact ⟨hadded, fun heq => hne heq.symm, Or.inr ⟨hedge, rfl, rfl, hadded⟩⟩
  next =>
    obtain ⟨hlt, hne, hobserver⟩ := h node input hinput
    exact ⟨hlt, hne, Or.inl hobserver⟩

theorem removeEdge {removed : NodeId} : (g.removeEdge id removed).Linked := by
  intro node input hinput
  rw [size_removeEdge, mem_observers_removeEdge]
  rw [inputs_removeEdge] at hinput
  split at hinput
  next hid =>
    obtain ⟨hold, hne⟩ := List.mem_filter.1 hinput
    obtain ⟨hlt, hne', hobserver⟩ := h node input hold
    refine ⟨hlt, hne', hobserver, ?_⟩
    rintro ⟨-, rfl⟩
    simp at hne
  next hid =>
    obtain ⟨hlt, hne, hobserver⟩ := h node input hinput
    refine ⟨hlt, hne, hobserver, ?_⟩
    rintro ⟨hnode, -⟩
    exact hid (Observer.node.inj hnode).symm

end FlowGraph.Linked

/-- Edges and observers mirror each other, and nothing is listed twice. -/
structure FlowGraph.Mirrored (g : FlowGraph) : Prop where
  linked : g.Linked
  observed : ∀ node input, .node node ∈ (g.get input).observers → input ∈ (g.get node).inputs
  inputs_nodup : ∀ node, (g.get node).inputs.Nodup
  observers_nodup : ∀ node, (g.get node).observers.Nodup

namespace FlowGraph.Mirrored

variable {g g' : FlowGraph} {observer : Observer}

theorem nodup_addObserver (h : ∀ node, (g.get node).observers.Nodup) (node : NodeId) :
    ((g.addObserver id observer).get node).observers.Nodup := by
  rw [addObserver, get_modify]
  split
  · split
    · exact h node
    · next hnew =>
      refine List.nodup_append.2 ⟨h node, by simp, ?_⟩
      simp only [List.mem_singleton, forall_eq]
      rintro _ hmem rfl
      exact hnew (List.contains_iff_mem.2 hmem)
  · exact h node

theorem nodup_removeObserver (h : ∀ node, (g.get node).observers.Nodup) (node : NodeId) :
    ((g.removeObserver id observer).get node).observers.Nodup := by
  rw [removeObserver, get_modify]
  split
  · exact (h node).filter _
  · exact h node

variable (h : g.Mirrored)
include h

/-- Changes that keep the inputs and the observers of all nodes. -/
theorem of_same (hsize : g.size ≤ g'.size)
    (hinputs : ∀ node, (g'.get node).inputs = (g.get node).inputs)
    (hobservers : ∀ node, (g'.get node).observers = (g.get node).observers) : g'.Mirrored where
  linked := h.linked.of_same hsize hinputs fun node _ => by rw [hobservers]; exact fun h => h
  observed node input := by rw [hinputs, hobservers]; exact h.observed node input
  inputs_nodup node := by rw [hinputs]; exact h.inputs_nodup node
  observers_nodup node := by rw [hobservers]; exact h.observers_nodup node

theorem addObserver (id : NodeId) (call : CallId) : (g.addObserver id (.call call)).Mirrored where
  linked := h.linked.of_same (by simp) (by simp) fun _ _ => by simp [mem_observers_addObserver]
  observed node input := by simpa [mem_observers_addObserver] using h.observed node input
  inputs_nodup := by simpa using h.inputs_nodup
  observers_nodup := nodup_addObserver h.observers_nodup

theorem removeObserver (id : NodeId) (call : CallId) :
    (g.removeObserver id (.call call)).Mirrored where
  linked := h.linked.of_same (by simp) (by simp) fun _ _ => by simp [mem_observers_removeObserver]
  observed node input := by simpa [mem_observers_removeObserver] using h.observed node input
  inputs_nodup := by simpa using h.inputs_nodup
  observers_nodup := nodup_removeObserver h.observers_nodup

/-- An edge enters both lists or neither, since a new dependency is not observed yet. -/
theorem addEdge {added : NodeId} (hid : id.index < g.size) (hadded : added.index < g.size) :
    (g.addEdge id added).Mirrored where
  linked := h.linked.addEdge hadded
  observed node input hobserver := by
    rw [inputs_addEdge]
    rcases (mem_observers_addEdge _ _ _ _ _).1 hobserver with hold | ⟨hnew, hnode, rfl, -⟩
    · have hinput := h.observed node input hold
      split
      · exact List.mem_append_left _ hinput
      · exact hinput
    · obtain rfl := Observer.node.inj hnode
      simp only [isNewEdge, Bool.and_eq_true, bne_iff_ne, ne_eq, Bool.not_eq_true',
        List.contains_eq_mem, decide_eq_false_iff_not] at hnew
      simp [hid, hnew]
  inputs_nodup node := by
    rw [inputs_addEdge]
    split
    · next hnew =>
      refine List.nodup_append.2 ⟨h.inputs_nodup node, by simp, ?_⟩
      simp only [List.mem_singleton, forall_eq]
      rintro _ hmem rfl
      exact hnew.2.2.2 hmem
    · exact h.inputs_nodup node
  observers_nodup node := by
    rw [FlowGraph.addEdge]
    split
    · refine nodup_addObserver (fun other => ?_) node
      rw [modify_field g id other FlowNode.observers]
      · exact h.observers_nodup other
      · exact fun _ => rfl
    · exact h.observers_nodup node

theorem removeEdge (id removed : NodeId) : (g.removeEdge id removed).Mirrored where
  linked := h.linked.removeEdge
  observed node input hobserver := by
    rw [mem_observers_removeEdge] at hobserver
    have hinput := h.observed node input hobserver.1
    rw [inputs_removeEdge]
    split
    · next hid =>
      refine List.mem_filter.2 ⟨hinput, bne_iff_ne.2 fun heq => hobserver.2 ⟨?_, heq.symm⟩⟩
      rw [hid]
    · exact hinput
  inputs_nodup node := by
    rw [inputs_removeEdge]
    split
    · exact (h.inputs_nodup node).filter _
    · exact h.inputs_nodup node
  observers_nodup node := by
    refine nodup_removeObserver (fun other => ?_) node
    rw [modify_field g id other FlowNode.observers]
    · exact h.observers_nodup other
    · exact fun _ => rfl

theorem addEdges (hid : id.index < g.size) (hinputs : ∀ input ∈ inputs, input.index < g.size) :
    (inputs.foldl (fun g input => g.addEdge id input) g).Mirrored := by
  have hall : (inputs.foldl (fun g input => g.addEdge id input) g).Mirrored ∧
      (inputs.foldl (fun g input => g.addEdge id input) g).size = g.size := by
    refine foldl_preserves g (P := fun g' => g'.Mirrored ∧ g'.size = g.size) inputs ?_ ⟨h, rfl⟩
    rintro g' input hinput ⟨hmirrored, hsize⟩
    rw [← hsize] at hid
    exact ⟨hmirrored.addEdge hid (by rw [hsize]; exact hinputs input hinput), by simpa using hsize⟩
  exact hall.1

theorem removeEdges {l : List α} {node input : α → NodeId} :
    (l.foldl (fun g a => g.removeEdge (node a) (input a)) g).Mirrored :=
  foldl_preserves g l (fun _ _ _ hmirrored => hmirrored.removeEdge _ _) h

end FlowGraph.Mirrored

/-- A node with a fixed type has no other. -/
def FlowGraph.Pins (g : FlowGraph) : Prop :=
  ∀ node type, (g.get node).rule = .pinned type → g.typeOf node = none ∨ g.typeOf node = some type

namespace FlowGraph.Pins

variable {g g' : FlowGraph}

variable (h : g.Pins)
include h

theorem of_same (hrule : ∀ node, (g'.get node).rule = (g.get node).rule)
    (htype : ∀ node, g'.typeOf node = g.typeOf node) : g'.Pins := by
  intro node type hpinned
  rw [hrule] at hpinned
  rw [htype]
  exact h node type hpinned

theorem eq_of_typeOf {pinned : TypeId} (hrule : (g.get node).rule = .pinned pinned)
    (htype : g.typeOf node = some type) : type = pinned := by
  rcases h node pinned hrule with hnone | hsome
  · exact absurd (hnone.symm.trans htype) (by simp)
  · exact Option.some.inj (htype.symm.trans hsome)

theorem push {node : FlowNode}
    (hnode : ∀ type, node.rule = .pinned type → node.type = none ∨ node.type = some type) :
    Pins ⟨g.nodes.push node⟩ := by
  intro other type hpinned
  rw [get_push] at hpinned
  rw [typeOf, get_push]
  split at hpinned
  next hnew =>
    rw [if_pos hnew]
    exact hnode type hpinned
  next hold =>
    rw [if_neg hold]
    exact h other type hpinned

theorem setType (hnode : ∀ pinned, (g.get node).rule = .pinned pinned → type = pinned) :
    (g.setType node (some type)).Pins := by
  intro other pinned hpinned
  rw [rule_setType] at hpinned
  rw [typeOf_setType]
  split
  next heq =>
    rw [← heq.1] at hpinned
    exact Or.inr (congrArg some (hnode pinned hpinned))
  next => exact h other pinned hpinned

theorem removeEdges {l : List α} {node input : α → NodeId} :
    (l.foldl (fun g a => g.removeEdge (node a) (input a)) g).Pins :=
  foldl_preserves g l (fun _ _ _ hpins => hpins.of_same (by simp) (by simp)) h

theorem addEdges : (inputs.foldl (fun g input => g.addEdge id input) g).Pins :=
  foldl_preserves g inputs (fun _ _ _ hpins => hpins.of_same (by simp) (by simp)) h

end FlowGraph.Pins

/-! ## Sound sessions -/

/-- What a session stores fits a session. -/
structure Session.Fills (s within : Session) : Prop where
  calls : ∀ call, s.HasCall call → (s.call call).Sits within
  instances : ∀ id, s.HasInstance id → (s.instanceAt id).Sits within
  scopes : ∀ scope, (s.scope scope).Sits within
  outputs : ∀ entry ∈ s.outputs, within.HasNode entry.1
  watch : s.watch.Sits within.HasCall within.types.Known
  cache :
    ∀ key id, s.cache.find? key = some id →
      ∃ request : Request, request.key = key ∧ within.Serves request id ∧ within.HasArity request

/-- The parts of a session fit together. -/
structure Session.Sound (s : Session) : Prop extends s.Fills s where
  types : s.types.Founded
  nil : s.HasNode .nil
  mirrored : s.flow.Mirrored
  pins : s.flow.Pins
  observers : ∀ node call, .call call ∈ (s.flow.get node).observers → s.HasCall call
  node_inj :
    ∀ call other, s.HasCall call → s.HasCall other →
      (s.call call).node = (s.call other).node → call = other
  results :
    ∀ call, s.HasCall call → ¬ s.IsConversion call →
      (s.flow.get (s.call call).node).inputs
        = joinNew [] (s.resultNodes (s.call call).resolved)
  /-- A call observes its inputs, unless they were given to it with `out` and converted. -/
  attends :
    ∀ call, s.HasCall call → ∀ input ∈ (s.call call).inputs,
      .call call ∈ (s.flow.get input).observers ∨ (s.call call).ConvertsOut input
  apart :
    ∀ call, s.HasCall call → ∀ i arg, (s.call call).args[i]? = some arg → arg.isOut = false →
      (s.call call).Apart i arg.node
  bodies :
    ∀ call other node, s.body? call = some node → s.body? other = some node → call = other
  keys :
    ∀ key other id, s.cache.find? key = some id → s.cache.find? other = some id → key = other

/-! ## What fits a session fits a later one -/

variable {s s' : Session} {call : CallId} {f : CallSite → CallSite} {g : FlowGraph}
  {site : CallSite}

theorem BlockSite.Sits.mono {block : BlockSite} (h : block.Sits s) (hb : s.Before s') :
    block.Sits s' where
  scope := h.scope.trans_le hb.scopes_le
  params := fun param hparam => hb.isSlot (h.params param hparam)
  visited := fun node hnode => hb.hasNode (h.visited node hnode)
  body := h.body.imp_left hb.isPlain

theorem CallSite.Sits.mono (h : site.Sits s) (hb : s.Before s') :
    site.Sits s' where
  node := hb.hasNode h.node
  rule := (hb.flow.rule site.node h.node).trans h.rule
  inputs := fun input hinput => hb.hasNode (h.inputs input hinput)
  outs := fun arg harg hout => hb.isSlot (h.outs arg harg hout)
  targets := fun id hid => hb.hasInstance (h.targets id hid)
  edges := fun edge hedge => (h.edges edge hedge).imp hb.isSlot hb.hasNode
  written := h.written.trans_le hb.scopes_le
  sources := fun conversion hmem => hb.hasNode (h.sources conversion hmem)
  scope := fun hblockArg => hb.isPlain (h.scope hblockArg)
  block := fun block hblock => (h.block block hblock).mono hb

theorem Instance.Sits.mono (h : inst.Sits s) (hb : s.Before s') : inst.Sits s' where
  node := hb.isSlot h.node
  params := fun param hparam => hb.isSlot (h.params param hparam)
  body := fun body hbody => hb.hasNode (h.body body hbody)
  scope := fun scope hscope => hb.isPlain (h.scope scope hscope)

theorem Scope.Sits.mono {scope : Scope} (h : scope.Sits s) (hb : s.Before s') : scope.Sits s' where
  vars := fun entry hentry => hb.hasNode (h.vars entry hentry)
  call := fun call hcall => hb.hasCall (h.call call hcall)
  blockInputs :=
    fun inputs hinputs input hinput => hb.hasNode (h.blockInputs inputs hinputs input hinput)
  parent := fun parent hparent => hb.isPlain (h.parent parent hparent)

theorem Scope.Sits.top (s : Session) (selfType methodOwner : TypeId) :
    (Scope.top selfType methodOwner).Sits s where
  vars := fun _ hentry => absurd hentry List.not_mem_nil
  call := by simp [Scope.top]
  blockInputs := by simp [Scope.top]
  parent := by simp [Scope.top]

/-- Two states of a call in which it is given the same. -/
structure CallSite.SameParts (site site' : CallSite) : Prop where
  node : site'.node = site.node
  receiver : site'.receiver = site.receiver
  args : site'.args = site.args
  blockArg : site'.blockArg = site.blockArg
  conversions : site'.conversions = site.conversions

namespace CallSite.SameParts

variable {site site' : CallSite} {input : NodeId}

theorem refl (site : CallSite) : site.SameParts site :=
  ⟨rfl, rfl, rfl, rfl, rfl⟩

variable (h : site.SameParts site')
include h

theorem inputs_eq : site'.inputs = site.inputs := by
  rw [inputs, argNodes, h.receiver, h.args, h.blockArg]
  rfl

theorem convertsOut_iff : site'.ConvertsOut input ↔ site.ConvertsOut input := by
  rw [ConvertsOut, ConvertsOut, h.conversions, h.args]

theorem apart_iff : site'.Apart i input ↔ site.Apart i input := by
  constructor
  · rintro ⟨hargs, hreceiver, hblockArg⟩
    exact ⟨h.args ▸ hargs, h.receiver ▸ hreceiver, h.blockArg ▸ hblockArg⟩
  · rintro ⟨hargs, hreceiver, hblockArg⟩
    exact ⟨h.args ▸ hargs, h.receiver ▸ hreceiver, h.blockArg ▸ hblockArg⟩

end CallSite.SameParts

namespace Session

namespace Before

variable (hb : s.Before s')
include hb

theorem resultNodes (hids : ∀ id ∈ ids, s.HasInstance id) :
    s'.resultNodes ids = s.resultNodes ids :=
  List.map_congr_left fun id hid => (hb.inst id (hids id hid)).node

theorem serves {id : InstanceId} (h : s.Serves request id) : s'.Serves request id where
  has := hb.hasInstance h.has
  method := (hb.inst id h.has).method.trans h.method
  owner := (hb.inst id h.has).owner.trans h.owner
  selfType := (hb.inst id h.has).selfType.trans h.selfType
  args := (hb.inst id h.has).args.trans h.args

theorem hasArity (h : s.HasArity request) : s'.HasArity request where
  known := h.known.trans_le hb.types.methods_le
  le := by
    rw [mayOmit_of_grows hb.types h.known, hb.types.method _ h.known]
    exact h.le
  eq_of_super := by
    rw [mayOmit_of_grows hb.types h.known, hb.types.method _ h.known]
    exact h.eq_of_super

theorem hasOut_iff (hc : s.HasCall call) : s'.HasOut call ↔ s.HasOut call := by
  have hiff : ∀ site : CallSite,
      (∃ arg ∈ site.args, arg.isOut = true) ↔ true ∈ site.args.map (·.isOut) := by
    simp
  rw [HasOut, HasOut, hiff, hiff, (hb.call call hc).isOut]

theorem conversions_ne (hcall : s.HasCall call) (h : (s.call call).conversions ≠ []) :
    (s'.call call).conversions ≠ [] := by
  refine fun hnil => h (List.eq_nil_of_subset_nil ?_)
  rw [← hnil]
  exact (hb.call call hcall).conversions

theorem onLibrary (hcall : s.HasCall call)
    (htype : ∀ receiver, (s.call call).receiver = some receiver →
      s'.typeOf receiver = s.typeOf receiver) (h : s.OnLibrary call) : s'.OnLibrary call := by
  obtain ⟨receiver, type, hreceiver, htypeOf, hlibrary⟩ := h
  exact ⟨receiver, type, (hb.call call hcall).receiver.trans hreceiver,
    (htype receiver hreceiver).trans htypeOf, hb.isLibrary hlibrary⟩

end Before

theorem Fills.mono {within : Session} (h : s.Fills within) (hb : within.Before s') :
    s.Fills s' where
  calls := fun call hc => (h.calls call hc).mono hb
  instances := fun id hid => (h.instances id hid).mono hb
  scopes := fun scope => (h.scopes scope).mono hb
  outputs := fun entry hentry => hb.hasNode (h.outputs entry hentry)
  watch := h.watch.mono (fun _ => hb.hasCall) fun _ => hb.types.known
  cache := by
    intro key id hfind
    obtain ⟨request, hkey, hserves, harity⟩ := h.cache key id hfind
    exact ⟨request, hkey, hb.serves hserves, hb.hasArity harity⟩

namespace Sound

/-- A call observes its inputs as long as none was converted. -/
theorem observed (hs : s.Sound) (hcall : s.HasCall call) (hnone : (s.call call).conversions = [])
    (hinput : input ∈ (s.call call).inputs) : .call call ∈ (s.flow.get input).observers := by
  refine (hs.attends call hcall input hinput).resolve_right ?_
  rintro ⟨conversion, hmem, -⟩
  simp [hnone] at hmem

theorem isSlot_of_mem_resultNodes (hs : s.Sound) (hids : ∀ id ∈ ids, s.HasInstance id)
    (h : node ∈ s.resultNodes ids) : s.IsSlot node := by
  obtain ⟨id, hid, rfl⟩ := List.mem_map.1 h
  exact (hs.instances id (hids id hid)).node

theorem watched (hs : s.Sound) {base : TypeId} (h : (call, base) ∈ s.watch.pairs) :
    s.HasCall call ∧ s.types.Known base :=
  hs.watch.registrations.values h

/-! ## Changes that keep a session sound -/

section

variable (hs : s.Sound)
include hs

/-- Changes that leave nodes and calls alone. -/
theorem of_same (hb : s.Before s') (hflow : s'.flow = s.flow) (hcalls : s'.calls = s.calls)
    (hfills : s'.Fills s) (htypes : s'.types.Founded)
    (hkeys : ∀ key other id, s'.cache.find? key = some id → s'.cache.find? other = some id →
      key = other) : s'.Sound := by
  cases s
  cases s'
  subst hflow hcalls
  refine
    { hfills.mono hb, hs with
      types := htypes
      results := fun call hc hnot => ?_
      keys := hkeys }
  have hnodes := hb.resultNodes (hs.calls call hc).targets
  exact (hs.results call hc fun h => hnot (hb.isConversion hc h)).trans (congrArg _ hnodes.symm)

/-- A change of the flow graph that keeps the inputs of the nodes of calls, and the calls among
the observers. -/
theorem withFlow (hb : s.flow.Before g) (hmirrored : g.Mirrored) (hpins : g.Pins)
    (hinputs : ∀ call, s.HasCall call → ¬ s.IsConversion call →
      (g.get (s.call call).node).inputs = (s.flow.get (s.call call).node).inputs)
    (hobservers : ∀ node call,
      .call call ∈ (g.get node).observers ↔ .call call ∈ (s.flow.get node).observers) :
    (s.withFlow g).Sound := by
  have hbefore : s.Before (s.withFlow g) := .withFlow hb
  refine
    { hs.toFills.mono hbefore, hs with
      nil := hbefore.hasNode hs.nil
      mirrored := hmirrored
      pins := hpins
      observers := fun node call h => hs.observers node call ((hobservers node call).1 h)
      results := ?_
      attends := ?_ }
  · exact fun call hc hnot => (hinputs call hc hnot).trans (hs.results call hc hnot)
  · intro call hc input hinput
    exact (hs.attends call hc input hinput).imp_left (hobservers input call).2

section Rewire

variable (hb : s.Before ((s.changeCall call f).withFlow g)) (hmirrored : g.Mirrored)
  (hpins : g.Pins)
  (hbodies : s.HasCall call → ∀ node, (f (s.call call)).block.bind (·.visit.node?) = some node →
    s.body? call = some node ∨ ∀ other, s.body? other ≠ some node)
  (hown : s.HasCall call → ¬ s.IsConversion call → (g.get (s.call call).node).inputs
    = joinNew [] (s.resultNodes (f (s.call call)).resolved))
  (hother : ∀ other, s.HasCall other → call ≠ other → ¬ s.IsConversion other →
    (g.get (s.call other).node).inputs = (s.flow.get (s.call other).node).inputs)
include hb hmirrored hpins hbodies hown hother

/-- A change of one call together with the flow graph. -/
theorem changeCall_withFlow
    (hobservers : ∀ node call, .call call ∈ (g.get node).observers → s.HasCall call)
    (hattends : ∀ other, s.HasCall other → ∀ input ∈ ((s.changeCall call f).call other).inputs,
      .call other ∈ (g.get input).observers ∨ ((s.changeCall call f).call other).ConvertsOut input)
    (hapart : s.HasCall call → ∀ i arg, (f (s.call call)).args[i]? = some arg →
      arg.isOut = false → (f (s.call call)).Apart i arg.node)
    (hnode : ∀ site, (f site).node = site.node)
    (hsits : s.HasCall call → (f (s.call call)).Sits ((s.changeCall call f).withFlow g)) :
    ((s.changeCall call f).withFlow g).Sound := by
  have hnode' := fun other => changeCall_field s call other node hnode
  have hhas := fun other => hasCall_changeCall s call other f
  constructor
  case toFills =>
    refine { hs.toFills.mono hb with calls := fun other ho => ?_ }
    change ((s.changeCall call f).call other).Sits _
    rw [call_changeCall]
    split
    next h => exact h.1 ▸ hsits (h.1 ▸ h.2)
    next => exact (hs.calls other ((hhas other).1 ho)).mono hb
  case types => exact hs.types
  case nil => exact hb.hasNode hs.nil
  case mirrored => exact hmirrored
  case pins => exact hpins
  case observers => exact fun node other h => (hhas other).2 (hobservers node other h)
  case node_inj =>
    intro first second hfirst hsecond heq
    have hsame : (s.call first).node = (s.call second).node := by
      rw [← hnode' first, ← hnode' second]
      exact heq
    exact hs.node_inj first second ((hhas first).1 hfirst) ((hhas second).1 hsecond) hsame
  case results =>
    intro other ho hlater
    have hold := (hhas other).1 ho
    have hnot : ¬ s.IsConversion other := fun h => hlater (hb.isConversion hold h)
    change (g.get ((s.changeCall call f).call other).node).inputs
      = joinNew [] (s.resultNodes ((s.changeCall call f).call other).resolved)
    rw [hnode' other]
    by_cases heq : call = other
    · subst heq
      rw [call_changeCall_self s f hold]
      exact hown hold hnot
    · rw [call_changeCall_of_ne s f heq, hother other hold heq hnot, hs.results other hold hnot]
  case attends => exact fun other ho => hattends other ((hhas other).1 ho)
  case apart =>
    intro other ho
    change ∀ i arg, ((s.changeCall call f).call other).args[i]? = some arg → arg.isOut = false →
      ((s.changeCall call f).call other).Apart i arg.node
    rw [call_changeCall]
    split
    next h => exact h.1 ▸ hapart (h.1 ▸ h.2)
    next => exact hs.apart other ((hhas other).1 ho)
  case bodies =>
    have hcases : ∀ other node, ((s.changeCall call f).withFlow g).body? other = some node →
        s.body? other = some node ∨ other = call ∧ ∀ third, s.body? third ≠ some node := by
      intro other node hbody
      change ((s.changeCall call f).call other).block.bind (·.visit.node?) = some node at hbody
      rw [call_changeCall] at hbody
      split at hbody
      next h =>
        obtain ⟨rfl, hc⟩ := h
        exact (hbodies hc node hbody).imp_right fun hnew => ⟨rfl, hnew⟩
      next => exact Or.inl hbody
    intro first second node hfirst hsecond
    rcases hcases first node hfirst with hold | ⟨rfl, hnew⟩
    · rcases hcases second node hsecond with hold' | ⟨-, hnew⟩
      · exact hs.bodies first second node hold hold'
      · exact absurd hold (hnew first)
    · rcases hcases second node hsecond with hold' | ⟨rfl, -⟩
      · exact absurd hold' (hnew second)
      · rfl
  case keys => exact hs.keys

/-- A change of one call that keeps what it is given, together with the edges from its targets. -/
theorem rewire
    (hobservers : ∀ node call,
      .call call ∈ (g.get node).observers ↔ .call call ∈ (s.flow.get node).observers)
    (hparts : ∀ site : CallSite, site.SameParts (f site))
    (hsits : s.HasCall call → (f (s.call call)).Sits s) :
    ((s.changeCall call f).withFlow g).Sound := by
  refine changeCall_withFlow hs hb hmirrored hpins hbodies hown hother ?_ ?_ ?_
    (fun site => (hparts site).node) fun hc => (hsits hc).mono hb
  · exact fun node other h => hs.observers node other ((hobservers node other).1 h)
  · intro other ho input hinput
    have hsame : (s.call other).SameParts ((s.changeCall call f).call other) := by
      rw [call_changeCall]
      split
      · exact hparts _
      · exact .refl _
    rw [hsame.inputs_eq] at hinput
    rw [hsame.convertsOut_iff]
    exact (hs.attends other ho input hinput).imp_left (hobservers input other).2
  · intro hc i arg harg hout
    rw [(hparts _).args] at harg
    exact ((hparts _).apart_iff).2 (hs.apart call hc i arg harg hout)

end Rewire

/-- A change of one call that keeps what it is given and its targets. -/
theorem changeCall (hb : s.Before (s.changeCall call f))
    (hparts : ∀ site : CallSite, site.SameParts (f site))
    (hbodies : s.HasCall call → ∀ node, (f (s.call call)).block.bind (·.visit.node?) = some node →
      s.body? call = some node ∨ ∀ other, s.body? other ≠ some node)
    (htargets : ∀ site, (f site).targets = site.targets)
    (hsits : s.HasCall call → (f (s.call call)).Sits s) : (s.changeCall call f).Sound := by
  refine rewire (g := s.flow) hs hb hs.mirrored hs.pins hbodies ?_ (fun _ _ _ _ => rfl)
    (fun _ _ => Iff.rfl) hparts hsits
  intro hc hnot
  rw [resolved, htargets]
  exact hs.results call hc hnot

/-- A change of how far a call has come, which keeps its parts and what it is bound to. -/
theorem changeStatus (hb : s.Before (s.changeCall call f))
    (hparts : ∀ site : CallSite, site.SameParts (f site))
    (hf : ∀ site, (f site).targets = site.targets ∧
      (f site).paramEdges ++ (f site).blockEdges = site.paramEdges ++ site.blockEdges ∧
      (f site).scope = site.scope ∧ (f site).block = site.block) : (s.changeCall call f).Sound := by
  refine hs.changeCall hb hparts (fun _ node hbody => Or.inl ?_) (fun site => (hf site).1)
    fun hcall => ?_
  · rwa [(hf _).2.2.2] at hbody
  have hsits := hs.calls call hcall
  have hsame := hparts (s.call call)
  obtain ⟨htargets, hedges, hscope, hblock⟩ := hf (s.call call)
  constructor
  case node => rw [hsame.node]; exact hsits.node
  case rule => rw [hsame.node]; exact hsits.rule
  case inputs => rw [hsame.inputs_eq]; exact hsits.inputs
  case outs => rw [hsame.args]; exact hsits.outs
  case targets => rw [resolved, htargets]; exact hsits.targets
  case edges => rw [hedges]; exact hsits.edges
  case written => rw [hscope]; exact hsits.written
  case sources => rw [hsame.conversions]; exact hsits.sources
  case scope => rw [hsame.blockArg, hscope]; exact hsits.scope
  case block => rw [hblock]; exact hsits.block

/-- A change of one instance that keeps its node. -/
theorem changeInstance {changed : InstanceId} {f : Instance → Instance}
    (hb : s.Before (s.changeInstance changed f))
    (hsits : s.HasInstance changed → (f (s.instanceAt changed)).Sits s) :
    (s.changeInstance changed f).Sound := by
  refine hs.of_same hb rfl rfl { hs.toFills with instances := fun id hid => ?_ } hs.types hs.keys
  rw [instanceAt_changeInstance]
  split
  next h => exact h.1 ▸ hsits (h.1 ▸ h.2)
  next => exact hs.instances id ((hasInstance_changeInstance s id changed f).1 hid)

theorem withInstance (hsits : inst.Sits s) : (s.withInstance inst).Sound := by
  refine hs.of_same (withInstance_before inst) rfl rfl
    { hs.toFills with instances := fun id hid => ?_ } hs.types hs.keys
  rw [instanceAt_withInstance]
  split
  next => exact hsits
  next hne => exact hs.instances id (((hasInstance_withInstance s id inst).1 hid).resolve_right hne)

end

section

variable (site : CallSite) (span : Span) (observed : List NodeId)

theorem size_withCall : (s.withCall site span observed).flow.size = s.flow.size + 1 := by
  rw [withCall_flow, foldl_field _ observed size fun _ _ => by simp]
  exact size_push _ _

theorem inputs_withCall (node : NodeId) :
    ((s.withCall site span observed).flow.get node).inputs = (s.flow.get node).inputs := by
  rw [withCall_flow, foldl_field _ observed (fun g => (g.get node).inputs) fun _ _ => by simp]
  exact inputs_push _ _ ⟨rfl, rfl⟩

theorem mem_observers_withCall (node : NodeId) (other : Observer) :
    other ∈ ((s.withCall site span observed).flow.get node).observers ↔
      other ∈ (s.flow.get node).observers ∨
        (other = .call ⟨s.calls.size⟩ ∧ node ∈ observed ∧ node.index < s.flow.size + 1) := by
  have hblank : (⟨none, [], [], .union, false, span⟩ : FlowNode).IsBlank := ⟨rfl, rfl⟩
  have hpush := observers_push s.flow node hblank
  have hadd : (s.flow.add .union span).2.size = s.flow.size + 1 := size_push _ _
  rw [withCall_flow, mem_observers_addObservers, hadd]
  exact or_congr_left (by rw [← hpush]; rfl)

end

theorem rule_withCall (hnode : site.node = ⟨s.flow.size⟩) (span : Span)
    (observed : List NodeId) :
    ((s.withCall site span observed).flow.get site.node).rule = .union := by
  rw [withCall_flow, foldl_field _ observed (fun g => (g.get site.node).rule) fun _ _ => by simp]
  rw [hnode, add, get_push, if_pos rfl]

theorem withCall {A : Agenda} {observed : List NodeId} (hs : s.Sound)
    (henters : site.Enters s A observed) (span : Span) :
    (s.withCall site span observed).Sound := by
  have hb : s.Before (s.withCall site span observed) := withCall_before henters.node span observed
  have hold : ∀ call, (s.withCall site span observed).HasCall call → call.index ≠ s.calls.size →
      s.HasCall call := fun call hc hne =>
    ((hasCall_withCall s call site span observed).1 hc).resolve_right hne
  constructor
  case toFills =>
    refine { hs.toFills.mono hb with calls := fun call hc => ?_ }
    rw [call_withCall]
    split
    next =>
      constructor
      case node =>
        rw [HasNode, size_withCall, henters.node]
        exact Nat.lt_succ_self _
      case rule => exact rule_withCall henters.node span observed
      case inputs => exact fun input hinput => hb.hasNode (henters.inputs input hinput)
      case outs => exact fun arg harg hout => hb.isSlot (henters.outs arg harg hout)
      case targets => simp [resolved, henters.targets]
      case edges => simp [henters.edges]
      case written => exact henters.written
      case sources => simp [henters.conversions]
      case scope => exact fun hblockArg => hb.isPlain (henters.scope hblockArg)
      case block => exact fun block h => (henters.block block h).1.mono hb
    next hne => exact (hs.calls call (hold call hc hne)).mono hb
  case types => exact hs.types
  case nil => exact hb.hasNode hs.nil
  case mirrored =>
    refine foldl_preserves _ observed (fun _ input _ h => h.addObserver input _) ?_
    exact hs.mirrored.of_same (by simp [add]) (fun node => inputs_push _ node ⟨rfl, rfl⟩)
      fun node => observers_push _ node ⟨rfl, rfl⟩
  case pins =>
    refine foldl_preserves _ observed (fun _ _ _ hpins => hpins.of_same (by simp) (by simp)) ?_
    exact hs.pins.push fun _ hpinned => absurd hpinned (by simp)
  case observers =>
    intro node call h
    rw [hasCall_withCall]
    rcases (mem_observers_withCall site span observed node _).1 h with hobserver | ⟨heq, -⟩
    · exact Or.inl (hs.observers node call hobserver)
    · exact Or.inr (congrArg CallId.index (Observer.call.inj heq))
  case node_inj =>
    -- The new call has the new node, which no other call has.
    have hfresh : ∀ call, s.HasCall call → (s.call call).node ≠ site.node := by
      intro call hc heq
      have hlt := (hs.calls call hc).node
      rw [heq, henters.node] at hlt
      exact Nat.lt_irrefl _ hlt
    intro first second hfirst hsecond heq
    rw [call_withCall, call_withCall] at heq
    split at heq
    next h1 =>
      split at heq
      next h2 =>
        exact congrArg CallId.mk (h1.trans h2.symm)
      next h2 => exact absurd heq.symm (hfresh second (hold second hsecond h2))
    next h1 =>
      split at heq
      next h2 => exact absurd heq (hfresh first (hold first hfirst h1))
      next h2 => exact hs.node_inj first second (hold first hfirst h1) (hold second hsecond h2) heq
  case results =>
    intro call hc hnot
    rw [inputs_withCall, call_withCall]
    split
    next =>
      have hnew : s.flow.get site.node = default :=
        s.flow.get_of_not_lt site.node (by rw [henters.node]; exact Nat.lt_irrefl _)
      rw [hnew, resolved, henters.targets]
      rfl
    next hne =>
      have hc' := hold call hc hne
      exact hs.results call hc' fun h => hnot (hb.isConversion hc' h)
  case attends =>
    intro call hc
    rw [call_withCall]
    split
    next hnew =>
      intro input hinput
      refine Or.inl ((mem_observers_withCall site span observed input _).2
        (Or.inr ⟨?_, henters.observed input hinput, ?_⟩))
      · cases call
        exact congrArg (fun i => Observer.call ⟨i⟩) hnew
      · exact Nat.lt_succ_of_lt (henters.inputs input hinput)
    next hne =>
      intro input hinput
      refine (hs.attends call (hold call hc hne) input hinput).imp_left fun h => ?_
      exact (mem_observers_withCall site span observed input _).2 (Or.inl h)
  case apart =>
    intro call hc
    rw [call_withCall]
    split
    next => exact henters.apart
    next hne => exact hs.apart call (hold call hc hne)
  case bodies =>
    -- Nobody has looked at the block of the new call.
    have hbody : ∀ call node, (s.withCall site span observed).body? call = some node →
        s.body? call = some node := by
      intro call node h
      rw [body?, call_withCall] at h
      split at h
      next =>
        obtain ⟨block, hsome, hvisit⟩ := Option.bind_eq_some_iff.1 h
        rw [(henters.block block hsome).2] at hvisit
        simp [Visit.node?] at hvisit
      next => exact h
    exact fun first second node h h' =>
      hs.bodies first second node (hbody first node h) (hbody second node h')
  case keys => exact hs.keys

/-! ### Resolving a call -/

/-- The nodes of other calls are other nodes. -/
theorem node_ne {call other : CallId} (hs : s.Sound) (hcall : s.HasCall call)
    (hother : s.HasCall other) (hne : call ≠ other) : (s.call call).node ≠ (s.call other).node :=
  fun heq => hne (hs.node_inj call other hcall hother heq)

/-- Without the results of its targets nothing is left of the inputs of a call. -/
theorem inputs_detached (hs : s.Sound) (hcall : s.HasCall call)
    (hnot : ¬ s.IsConversion call) :
    (((s.resultNodes (s.call call).resolved).foldl
      (fun flow input => flow.removeEdge (s.call call).node input) s.flow).get
        (s.call call).node).inputs = [] := by
  rw [inputs_removeEdges, if_pos rfl, hs.results call hcall hnot, List.filter_eq_nil_iff]
  intro node hnode
  rcases (mem_joinNew node).1 hnode with h | h
  · cases h
  · simpa using h

theorem call_mem_observers_removeEdges (l : List α) (node input : α → NodeId) (g : FlowGraph)
    (other : NodeId) (call : CallId) :
    .call call ∈ ((l.foldl (fun g a => g.removeEdge (node a) (input a)) g).get other).observers ↔
      .call call ∈ (g.get other).observers :=
  iff_of_eq (foldl_field g l (fun g => Observer.call call ∈ (g.get other).observers)
    fun _ _ => propext (call_mem_observers_removeEdge _ _ _ _ _))

theorem call_mem_observers_addEdges
    (id : NodeId) (inputs : List NodeId) (g : FlowGraph) (other : NodeId) (call : CallId) :
    .call call ∈ ((inputs.foldl (fun g input => g.addEdge id input) g).get other).observers ↔
      .call call ∈ (g.get other).observers :=
  iff_of_eq (foldl_field g inputs
    (fun g => Observer.call call ∈ (g.get other).observers)
    fun _ _ => propext (call_mem_observers_addEdge _ _ _ _ _))

/-- Edges that end at slots do not touch the inputs of calls. -/
theorem inputs_removeEdges_of_slots {edges : List (NodeId × NodeId)}
    (hedges : ∀ edge ∈ edges, s.IsSlot edge.1) (hcall : s.HasCall call)
    (hnot : ¬ s.IsConversion call) (g : FlowGraph) :
    ((edges.foldl (fun g edge => g.removeEdge edge.1 edge.2) g).get (s.call call).node).inputs
      = (g.get (s.call call).node).inputs := by
  refine foldl_preserves g
    (P := fun g' => (g'.get (s.call call).node).inputs = (g.get (s.call call).node).inputs)
    edges ?_ rfl
  intro g' edge hedge hsame
  have hne : edge.1 ≠ (s.call call).node :=
    fun heq => hnot ((hedges edge hedge).conversion call hcall heq.symm)
  rw [inputs_removeEdge, if_neg hne, hsame]

theorem reopened (hs : s.Sound) (hcall : s.HasCall call) (signature : List TypeId) :
    (s.reopened call signature).Sound := by
  have hedges := fun edge hedge => ((hs.calls call hcall).edges edge hedge).1
  refine rewire hs (reopened_before call signature) ?_ ?_ (fun _ _ => Or.inl) ?_ ?_ ?_
    (fun _ => ⟨rfl, rfl, rfl, rfl, rfl⟩) ?_
  · exact (Mirrored.removeEdges hs.mirrored).removeEdges
  · exact (Pins.removeEdges hs.pins).removeEdges
  · intro _ hnot
    rw [inputs_removeEdges_of_slots hedges hcall hnot]
    exact hs.inputs_detached hcall hnot
  · intro other hother hne hnot
    rw [inputs_removeEdges_of_slots hedges hother hnot,
      inputs_removeEdges, if_neg (hs.node_ne hcall hother hne)]
  · intro node other
    exact (call_mem_observers_removeEdges _ Prod.fst Prod.snd _ node other).trans
      (call_mem_observers_removeEdges _ (fun _ => (s.call call).node) id _ node other)
  · intro _
    have hsits := hs.calls call hcall
    exact { hsits with targets := by simp [resolved], edges := by simp }

/-- A call that depends on nothing comes to depend on the results of instances. -/
theorem resolvedTo {targets : List InstanceId} (hs : s.Sound)
    (hcall : s.HasCall call) (hb : s.Before ((s.withFlow g).resolvedTo call targets))
    (hsize : g.size = s.flow.size) (hmirrored : g.Mirrored) (hpins : g.Pins)
    (hobservers : ∀ node call,
      .call call ∈ (g.get node).observers ↔ .call call ∈ (s.flow.get node).observers)
    (hown : ¬ s.IsConversion call → (g.get (s.call call).node).inputs = [])
    (hother : ∀ other, s.HasCall other → call ≠ other →
      (g.get (s.call other).node).inputs = (s.flow.get (s.call other).node).inputs)
    (htargets : ∀ id ∈ targets, s.HasInstance id) :
    ((s.withFlow g).resolvedTo call targets).Sound := by
  have hslots : ∀ node ∈ s.resultNodes targets, s.IsSlot node :=
    fun node hnode => hs.isSlot_of_mem_resultNodes htargets hnode
  have hnode : (s.call call).node.index < g.size := by
    rw [hsize]
    exact (hs.calls call hcall).node
  change ((s.changeCall call ({ · with targets := some targets })).withFlow
    ((s.resultNodes targets).foldl (fun flow input => flow.addEdge (s.call call).node input)
      g)).Sound
  refine rewire hs hb ?_ hpins.addEdges (fun _ _ => Or.inl) ?_ ?_ ?_
    (fun _ => ⟨rfl, rfl, rfl, rfl, rfl⟩) ?_
  · refine hmirrored.addEdges hnode fun input hinput => ?_
    rw [hsize]
    exact (hslots input hinput).has
  · intro _ hnot
    have hne : (s.call call).node ∉ s.resultNodes targets :=
      fun hmem => hnot ((hslots _ hmem).conversion call hcall rfl)
    have hinputs := inputs_addEdges g (s.call call).node hnode hne
    rw [hown hnot] at hinputs
    exact hinputs
  · intro other ho hne _
    have hinputs := inputs_addEdges_of_ne g _ (s.resultNodes targets) (hs.node_ne hcall ho hne)
    exact hinputs.trans (hother other ho hne)
  · intro node other
    exact (call_mem_observers_addEdges _ _ g node other).trans (hobservers node other)
  · intro _
    have hsits := hs.calls call hcall
    exact { hsits with targets := by simpa [resolved] using htargets }

/-! ### Converting an argument -/

theorem mem_modify_node (h : arg ∈ args.modify index fun arg => { arg with node }) :
    arg ∈ args ∨ arg.node = node ∧ (args.map (·.isOut))[index]? = some arg.isOut := by
  obtain ⟨j, hj⟩ := List.mem_iff_getElem?.1 h
  rw [List.getElem?_modify] at hj
  obtain ⟨old, hold, rfl⟩ := Option.map_eq_some_iff.1 hj
  split
  next heq =>
    subst heq
    exact Or.inr ⟨rfl, by simp [hold]⟩
  next => exact Or.inl (List.mem_of_getElem? hold)

theorem getElem?_modify_node (h : (args.modify index fun arg => { arg with node })[i]? = some arg) :
    ∃ old, args[i]? = some old ∧ arg.isOut = old.isOut ∧
      (i = index ∧ arg.node = node ∨ i ≠ index ∧ arg.node = old.node) := by
  rw [List.getElem?_modify] at h
  obtain ⟨old, hold, rfl⟩ := Option.map_eq_some_iff.1 h
  refine ⟨old, hold, ?_⟩
  split
  next heq => exact ⟨rfl, Or.inl ⟨heq.symm, rfl⟩⟩
  next hne => exact ⟨rfl, Or.inr ⟨fun heq => hne heq.symm, rfl⟩⟩

section Converted

variable {source node : NodeId} {index : Nat}

/-- After a conversion the call observes the new node, and all inputs that it observed, unless it
is given the source with `out`. -/
theorem attends_converted (hs : s.Sound) (hcall : s.HasCall call) (hnode : s.HasNode node)
    (hapart : ((s.call call).args.map (·.isOut))[index]? = some true ∨
      (s.call call).Apart index source) (kind : ConversionKind)
    (hsite : site = (s.call call).converted index kind source node)
    (hisOut : site.args.map (·.isOut) = (s.call call).args.map (·.isOut))
    (hinput : input ∈ site.inputs) :
    (.call call ∈ (s.flow.get input).observers ∧ source ≠ input ∨ node = input ∧ s.HasNode input) ∨
      site.ConvertsOut input := by
  have hconversions : site.conversions = (s.call call).conversions ++ [⟨index, kind, source⟩] :=
    congrArg CallSite.conversions hsite
  have hold : input ∈ (s.call call).inputs → ((s.call call).Apart index source → source ≠ input) →
      (.call call ∈ (s.flow.get input).observers ∧ source ≠ input ∨
        node = input ∧ s.HasNode input) ∨ site.ConvertsOut input := by
    intro hmem hne
    by_cases heq : source = input
    · rcases hapart with hout | hapart
      · refine Or.inr ⟨⟨index, kind, source⟩, ?_, heq, hisOut ▸ hout⟩
        rw [hconversions]
        exact List.mem_append_right _ (List.mem_singleton.2 rfl)
      · exact absurd heq (hne hapart)
    · refine (hs.attends call hcall input hmem).imp (fun h => Or.inl ⟨h, heq⟩) ?_
      rintro ⟨conversion, hconversion, hsource, hout⟩
      refine ⟨conversion, ?_, hsource, hisOut ▸ hout⟩
      rw [hconversions]
      exact List.mem_append_left _ hconversion
  rcases mem_inputs.1 hinput with ⟨arg, harg, hargNode⟩ | hreceiver | hblockArg
  · rw [hsite] at harg
    obtain ⟨i, hi⟩ := List.mem_iff_getElem?.1 harg
    obtain ⟨old, hgiven, -, hnew | ⟨hne, hsame⟩⟩ := getElem?_modify_node hi
    · obtain rfl := hnew.2.symm.trans hargNode
      exact Or.inl (Or.inr ⟨rfl, hnode⟩)
    · have hinput : old.node = input := hsame.symm.trans hargNode
      refine hold (mem_inputs.2 (Or.inl ⟨old, List.mem_of_getElem? hgiven, hinput⟩)) ?_
      exact fun h heq => h.args i old hgiven hne (hinput.trans heq.symm)
  · rw [hsite] at hreceiver
    refine hold (mem_inputs.2 (Or.inr (Or.inl hreceiver))) fun h heq => ?_
    exact h.receiver (heq ▸ hreceiver)
  · rw [hsite] at hblockArg
    refine hold (mem_inputs.2 (Or.inr (Or.inr hblockArg))) fun h heq => ?_
    exact h.blockArg (heq ▸ hblockArg)

variable (index) in
/-- A node that has no use yet is given to no call twice when it takes the place of another. -/
theorem apart_converted (hs : s.Sound) (hcall : s.HasCall call) (hloose : s.IsLoose node)
    (hargs : site.args = (s.call call).args.modify index fun arg => { arg with node })
    (hreceiver : site.receiver = (s.call call).receiver)
    (hblockArg : site.blockArg = (s.call call).blockArg) (harg : site.args[i]? = some arg)
    (hout : arg.isOut = false) : site.Apart i arg.node := by
  have hunused : ∀ {j : Nat} {old : Argument}, (s.call call).args[j]? = some old →
      old.node ≠ node := fun hgiven heq => hloose.unused call
    (Or.inl (mem_inputs.2 (Or.inl ⟨_, List.mem_of_getElem? hgiven, heq⟩)))
  rw [hargs] at harg
  obtain ⟨old, hold, hisOut, ⟨rfl, hnew⟩ | ⟨hne, hsame⟩⟩ := getElem?_modify_node harg
  · rw [hnew]
    constructor
    case args =>
      intro j other hother hji
      rw [hargs] at hother
      obtain ⟨given, hgiven, -, hplace | ⟨-, hkept⟩⟩ := getElem?_modify_node hother
      · exact absurd hplace.1 hji
      · rw [hkept]
        exact hunused hgiven
    case receiver =>
      rw [hreceiver]
      exact fun h => hloose.unused call (Or.inl (mem_inputs.2 (Or.inr (Or.inl h))))
    case blockArg =>
      rw [hblockArg]
      exact fun h => hloose.unused call (Or.inl (mem_inputs.2 (Or.inr (Or.inr h))))
  · have hapart := hs.apart call hcall i old hold (hisOut ▸ hout)
    rw [hsame]
    constructor
    case args =>
      intro j other hother hji
      rw [hargs] at hother
      obtain ⟨given, hgiven, -, ⟨-, hplaced⟩ | ⟨-, hkept⟩⟩ := getElem?_modify_node hother
      · rw [hplaced]
        exact (hunused hold).symm
      · rw [hkept]
        exact hapart.args j given hgiven hji
    case receiver => rw [hreceiver]; exact hapart.receiver
    case blockArg => rw [hblockArg]; exact hapart.blockArg

theorem converted (hs : s.Sound) (hcall : s.HasCall call)
    (hreceiver : (s.call call).receiver ≠ none) (hnode : s.HasNode node)
    (hmade : ∀ maker, s.HasCall maker → (s.call maker).node = node →
      (s.call maker).receiver = some source)
    (hloose : s.IsLoose node)
    (hgiven : s.HasNode source)
    (hapart : ((s.call call).args.map (·.isOut))[index]? = some true ∨
      (s.call call).Apart index source)
    (kind : ConversionKind) : (s.converted call index kind source node).Sound := by
  have hb := converted_before hreceiver index kind source node
  have hobserver : ∀ input other,
      other ∈ (((s.flow.removeObserver source (.call call)).addObserver node (.call call)).get
          input).observers ↔
        (other ∈ (s.flow.get input).observers ∧ ¬ (other = .call call ∧ source = input)) ∨
          (other = .call call ∧ node = input ∧ input.index < s.flow.size) := by
    intro input other
    rw [mem_observers_addObserver, mem_observers_removeObserver, size_removeObserver]
  have hsits := hs.calls call hcall
  have hisOut := (hb.call call hcall).isOut
  refine changeCall_withFlow hs hb ?_ ?_ (fun _ _ => Or.inl) ?_ ?_ ?_ ?_ ?_ (fun _ => rfl) ?_
  · exact (hs.mirrored.removeObserver source call).addObserver node call
  · exact hs.pins.of_same (by simp) (by simp)
  · intro _ hnot
    rw [inputs_addObserver, inputs_removeObserver]
    exact hs.results call hcall hnot
  · intro other _ _ _
    simp
  · intro input other h
    rcases (hobserver input _).1 h with ⟨hold, -⟩ | ⟨heq, -⟩
    · exact hs.observers input other hold
    · exact Observer.call.inj heq ▸ hcall
  · intro other ho input hinput
    by_cases heq : call = other
    · subst heq
      have hsite := call_changeCall_self s (·.converted index kind source node) hcall
      refine (hs.attends_converted hcall hnode hapart kind hsite hisOut hinput).imp_left fun h => ?_
      rcases h with ⟨hobserved, hne⟩ | ⟨heq, hhas⟩
      · exact (hobserver input _).2 (Or.inl ⟨hobserved, fun h => hne h.2⟩)
      · exact (hobserver input _).2 (Or.inr ⟨rfl, heq, hhas⟩)
    · rw [call_changeCall_of_ne s _ heq] at hinput ⊢
      refine (hs.attends other ho input hinput).imp_left fun h => ?_
      refine (hobserver input _).2 (Or.inl ⟨h, ?_⟩)
      rintro ⟨hcalls, -⟩
      exact heq (Observer.call.inj hcalls).symm
  · intro _ i arg harg hout
    exact hs.apart_converted index hcall hloose (by rfl) (by rfl) (by rfl) harg hout
  · intro _
    have hlater := hsits.mono hb
    refine ⟨hlater.node, hlater.rule, ?_, ?_, hlater.targets, hlater.edges, hlater.written, ?_,
      hlater.scope, hlater.block⟩
    · intro input hinput
      rcases mem_inputs.1 hinput with ⟨arg, harg, rfl⟩ | hrest
      · rcases mem_modify_node harg with hold | ⟨hnew, -⟩
        · exact hlater.inputs arg.node (mem_inputs.2 (Or.inl ⟨arg, hold, rfl⟩))
        · exact hnew ▸ hb.hasNode hnode
      · exact hlater.inputs input (mem_inputs.2 (Or.inr hrest))
    · intro arg harg hout
      rcases mem_modify_node harg with hold | ⟨hnew, hposition⟩
      · exact hlater.outs arg hold hout
      -- Only the call that converts the argument can have the new node.
      · rw [hnew]
        refine ⟨hb.hasNode hnode, fun maker hmaker hnode' => ?_⟩
        have hold := (hasCall_changeCall s call maker _).1 hmaker
        have hsource := hmade maker hold ((hb.call maker hold).node.symm.trans hnode')
        refine ⟨source, call, (hb.call maker hold).receiver.trans hsource, hb.hasCall hcall,
          ⟨index, kind, source⟩, ?_, rfl, ?_⟩
        · change _ ∈ ((s.changeCall call _).call call).conversions
          rw [call_changeCall_self s _ hcall]
          simp
        · exact (congrArg (·[index]?) hisOut).trans (hout ▸ hposition)
    · intro conversion hmem
      rcases List.mem_append.1 hmem with hold | hnew
      · exact hlater.sources conversion hold
      · rw [List.mem_singleton.1 hnew]
        exact hb.hasNode hgiven

end Converted

/-- A block is looked at further, up to a node that is the body of no other block. -/
theorem visited {visit : Visit} (hs : s.Sound)
    (hb : s.Before (s.changeCall call (·.visited visit)))
    (hvisit : ∀ node, visit = .finished node →
      s.HasNode node ∧ ∀ other, s.body? other ≠ some node) :
    (s.changeCall call (·.visited visit)).Sound := by
  refine hs.changeCall hb (fun _ => ⟨rfl, rfl, rfl, rfl, rfl⟩) (fun _ node hbody => ?_)
    (fun _ => rfl) fun hcall => ?_
  · obtain ⟨block, hblock, hnode⟩ := Option.bind_eq_some_iff.1 hbody
    obtain ⟨block, -, rfl⟩ := Option.map_eq_some_iff.1 hblock
    exact Or.inr (hvisit node (Visit.node?_eq_some.1 hnode)).2
  · have hsits := hs.calls _ hcall
    refine { hsits with block := fun other hother => ?_ }
    obtain ⟨block, hblock, rfl⟩ := Option.map_eq_some_iff.1 hother
    have hblockSits := hsits.block block hblock
    exact ⟨hblockSits.scope, hblockSits.params, fun node hnode => (hvisit node hnode).1,
      hblockSits.body⟩

end Sound

end Session

/-! ## Moves -/

/-- Every move keeps a session sound. -/
theorem Move.sound {A A' : Agenda} {O : Set CallId} (h : Move O (s, A) (s', A'))
    (hs : s.Sound) : s'.Sound := by
  have hb := h.before
  have hfills := hs.toFills
  cases h with
  | wait | lock | joined | current | close | unwatched => exact hs
  | aside _ _ _ _ _ h =>
    refine hs.of_same hb rfl rfl { hfills with outputs := fun entry hentry => ?_ } hs.types hs.keys
    exact (h entry hentry).elim (hs.outputs entry) id
  | count | answer => exact hs.of_same hb rfl rfl { hfills with } hs.types hs.keys
  | types _ h | declare h =>
    exact hs.of_same hb rfl rfl { hfills with } (h.founded hs.types) hs.keys
  | node node h hpinned =>
    refine hs.withFlow hb.flow ?_ (hs.pins.push hpinned) ?_ ?_
    · exact hs.mirrored.of_same (by simp) (inputs_push _ · h) (observers_push _ · h)
    · exact fun call _ _ => inputs_push _ _ h
    · exact fun node call => by rw [observers_push _ node h]
  | freeze | thaw =>
    refine hs.withFlow hb.flow ?_ (hs.pins.of_same (by simp) (by simp)) (by simp) (by simp)
    exact hs.mirrored.of_same (by simp) (by simp) (by simp)
  | scope scope h =>
    refine hs.of_same hb rfl rfl { hfills with scopes := fun other => ?_ } hs.types hs.keys
    rw [Session.scope_withScope]
    split
    · exact h
    · exact hs.scopes other
  | @bind _ _ scope name node h =>
    refine hs.of_same hb rfl rfl { hfills with scopes := fun other => ?_ } hs.types hs.keys
    rw [Session.scope_withVar]
    split
    · refine { hs.scopes other with vars := fun entry hentry => ?_ }
      rcases NameMap.mem_insert hentry with rfl | hold
      · exact h.has
      · exact (hs.scopes other).vars entry hold
    · exact hs.scopes other
  | link hnode hinput =>
    refine hs.withFlow hb.flow (hs.mirrored.addEdge hnode.has hinput)
      (hs.pins.of_same (by simp) (by simp)) ?_ (by simp)
    intro call hcall hnot
    rw [inputs_addEdge, if_neg]
    rintro ⟨rfl, -⟩
    exact hnot (hnode.conversion call hcall rfl)
  | assign h hpinned hfrozen =>
    refine hs.withFlow hb.flow ?_ (hs.pins.setType hpinned) (by simp) (by simp)
    exact hs.mirrored.of_same (by simp) (by simp) (by simp)
  | kill hcall hdead hfrozen =>
    refine hs.withFlow hb.flow ?_ (hs.pins.setType fun pinned hpinned => ?_) (by simp) (by simp)
    · exact hs.mirrored.of_same (by simp) (by simp) (by simp)
    · exact absurd ((hs.calls _ hcall).rule.symm.trans hpinned) (by simp)
  | call site span observed henters => exact hs.withCall henters span
  | block block h hopen htargets hblockArg hpending =>
    refine hs.changeCall hb (fun _ => ⟨rfl, rfl, rfl, rfl, rfl⟩) (fun _ node hbody => ?_)
      (fun _ => rfl) fun hcall => ?_
    · simp [hpending, Visit.node?] at hbody
    have hsits := hs.calls _ hcall
    refine { hsits with block := ?_ }
    rintro other hother
    exact Option.some.inj hother ▸ h
  | begin hpending => exact hs.visited hb fun node hvisit => absurd hvisit (by simp)
  | finish hnode hfresh hfree hstarted =>
    exact hs.visited hb fun node hvisit => Visit.finished.inj hvisit ▸ ⟨hnode, hfresh⟩
  | paramEdge h hinput | blockEdge h hinput =>
    refine hs.changeCall hb (fun _ => ⟨rfl, rfl, rfl, rfl, rfl⟩) (fun _ _ => Or.inl)
      (fun _ => rfl) fun hcall => ?_
    have hsits := hs.calls _ hcall
    refine { hsits with edges := fun edge hedge => ?_ }
    have hold := hsits.edges edge
    rw [List.mem_append] at hold
    simp only [List.mem_append, List.mem_singleton] at hedge
    grind
  | defer | sign | forget =>
    exact hs.changeStatus hb (fun _ => ⟨rfl, rfl, rfl, rfl, rfl⟩) fun _ => ⟨rfl, rfl, rfl, rfl⟩
  | make inst h => exact hs.withInstance h
  | params id params h =>
    refine hs.changeInstance hb fun hid => ?_
    have hsits := hs.instances id hid
    exact ⟨hsits.node, h, hsits.body, hsits.scope⟩
  | body id h =>
    refine hs.changeInstance hb fun hid => ?_
    have hsits := hs.instances id hid
    exact ⟨hsits.node, hsits.params, fun _ hbody => Option.some.inj hbody ▸ h, hsits.scope⟩
  | enter request id hserves harity hnew hlocked hfresh haccepts =>
    have hcases : ∀ key other, (s.cache.insert request.key id).find? key = some other →
        key = request.key ∧ other = id ∨ s.cache.find? key = some other := by
      intro key other hfind
      rw [InstanceCache.find?_insert] at hfind
      split at hfind
      next hkey => exact Or.inl ⟨hkey, (Option.some.inj hfind).symm⟩
      next => exact Or.inr hfind
    refine hs.of_same hb rfl rfl { hfills with cache := fun key other hfind => ?_ } hs.types
      fun key key' other hfind hfind' => ?_
    · rcases hcases key other hfind with ⟨rfl, rfl⟩ | hold
      · exact ⟨request, rfl, hserves, harity⟩
      · exact hs.cache key other hold
    -- No other key leads to the new instance.
    · rcases hcases key other hfind with ⟨rfl, rfl⟩ | hold
      · rcases hcases key' _ hfind' with ⟨rfl, -⟩ | hold'
        · rfl
        · exact absurd hold' (hfresh key')
      · rcases hcases key' other hfind' with ⟨rfl, rfl⟩ | hold'
        · exact absurd hold (hfresh key)
        · exact hs.keys key key' other hold hold'
  | watch hcall hbase =>
    exact hs.of_same hb rfl rfl { hfills with watch := hs.watch.add hcall hbase } hs.types hs.keys
  | unwatch hopen h =>
    exact hs.of_same hb rfl rfl { hfills with watch := hs.watch.removeCall _ } hs.types hs.keys
  | reopen hopen hcall hsignature hout hplain => exact hs.reopened hcall _
  | resolve hcall hopen hout htyped htargets hcovers =>
    refine hs.resolvedTo hcall hb rfl hs.mirrored hs.pins (fun _ _ => Iff.rfl) (fun hnot => ?_)
      (fun _ _ _ => rfl) htargets
    rw [hs.results _ hcall hnot, resolved, hopen]
    rfl
  | convert index kind hopen hcall hreceiver hnode hmade hconverting hloose hfree hsources hsource
      hgiven hapart hfixed =>
      exact hs.converted hcall hreceiver hnode hmade hloose hgiven hapart kind
  | resolveForeign hcall htarget hfits =>
    refine hs.resolvedTo hcall hb ?_ hs.mirrored.removeEdges hs.pins.removeEdges ?_
      (hs.inputs_detached hcall) ?_
      (by simpa using htarget)
    · exact foldl_field _ _ size fun _ _ => by simp
    · exact fun node other => Session.Sound.call_mem_observers_removeEdges _ _ id _ node other
    · intro other ho hne
      rw [inputs_removeEdges, if_neg (hs.node_ne hcall ho hne)]

theorem Evolves.sound {a b : Session × Agenda} (h : Evolves a b) (hs : a.1.Sound) : b.1.Sound :=
  h.keeps (P := fun s _ => s.Sound) (fun hmove => hmove.sound) hs

end Callsite
