import Callsite.Proofs.Flow.Cycles

/-!
# Updating nodes with few observers

A node that joins the types of its inputs is connected with new ones and gets its type.  Either
nobody observes it, or one node does that follows it and is not observed itself.
-/

namespace Callsite

open TypeTable

variable {old changed all : List NodeId} {rule : Rule} {g' : FlowGraph} {s' : Session}
  {engine : Engine} {budget : Nat} {observers : List Observer}

/-! ## Reading a graph that was changed -/

namespace FlowGraph

variable {g : FlowGraph} {id node input : NodeId} {inputs : List NodeId} {type : Option TypeId}

theorem mem_joinNew_nil : node ∈ joinNew [] inputs ↔ node ∈ inputs := by
  rw [mem_joinNew]
  simp

theorem get_modify_of_ne (f : FlowNode → FlowNode) (h : node ≠ id) :
    (g.modify id f).get node = g.get node := by
  rw [get_modify, if_neg fun hall => h hall.1.symm]

theorem get_setType_of_ne (h : node ≠ id) : (g.setType id type).get node = g.get node :=
  get_modify_of_ne _ h

theorem get_addEdge_of_ne (hid : node ≠ id) (hinput : node ≠ input) :
    (g.addEdge id input).get node = g.get node := by
  rw [addEdge]
  split
  · rw [addObserver, get_modify_of_ne _ hinput, get_modify_of_ne _ hid]
  · rfl

/-- One edge of a node is made or taken away: its inputs and the observers of the input may change,
and the rest stays. -/
structure Relinks (id : NodeId) (link : FlowGraph → NodeId → FlowGraph) : Prop where
  size_eq : ∀ g input, (link g input).size = g.size
  rule_eq : ∀ g input node, ((link g input).get node).rule = (g.get node).rule
  frozen_eq : ∀ g input node, ((link g input).get node).frozen = (g.get node).frozen
  typeOf_eq : ∀ g input node, (link g input).typeOf node = g.typeOf node
  observers_eq : ∀ g input node, node ≠ input →
    ((link g input).get node).observers = (g.get node).observers
  get_eq : ∀ g input node, node ≠ id → node ≠ input → (link g input).get node = g.get node

theorem relinks_addEdge (id : NodeId) : Relinks id fun g input => g.addEdge id input where
  size_eq := fun g input => size_addEdge g id input
  rule_eq := fun g input node => rule_addEdge g id node input
  frozen_eq := fun g input node => frozen_addEdge g id node input
  typeOf_eq := fun g input node => typeOf_addEdge g id node input
  observers_eq := by
    intro g input node h
    rw [addEdge]
    split
    · rw [addObserver, get_modify_of_ne _ h]
      exact modify_field g id node FlowNode.observers fun _ => rfl
    · rfl
  get_eq := fun _ _ _ => get_addEdge_of_ne

theorem relinks_removeEdge (id : NodeId) : Relinks id fun g input => g.removeEdge id input where
  size_eq := fun g input => size_removeEdge g id input
  rule_eq := fun g input node => rule_removeEdge g id node input
  frozen_eq := fun g input node => frozen_removeEdge g id node input
  typeOf_eq := fun g input node => typeOf_removeEdge g id node input
  observers_eq := by
    intro g input node h
    rw [removeEdge, removeObserver, get_modify_of_ne _ h]
    exact modify_field g id node FlowNode.observers fun _ => rfl
  get_eq := by
    intro g input node hid hinput
    rw [removeEdge, removeObserver, get_modify_of_ne _ hinput, get_modify_of_ne _ hid]

/-- A graph in which some nodes were given types, and edges from some inputs were made or taken
away. -/
structure Rewires (g g' : FlowGraph) (changed inputs : List NodeId) : Prop where
  size_eq : g'.size = g.size
  frozen_eq : ∀ n, (g'.get n).frozen = (g.get n).frozen
  typeOf_eq : ∀ n ∉ changed, g'.typeOf n = g.typeOf n
  get_eq : ∀ n ∉ changed, n ∉ inputs → g'.get n = g.get n

theorem Rewires.setType (h : g.Rewires g' changed inputs) (hid : id ∈ changed) :
    g.Rewires (g'.setType id type) changed inputs where
  size_eq := (size_setType _ _ _).trans h.size_eq
  frozen_eq := fun n => (frozen_setType _ _ _ _).trans (h.frozen_eq n)
  typeOf_eq := by
    intro n hn
    have hne : id ≠ n := fun heq => hn (heq ▸ hid)
    rw [typeOf_setType_of_ne hne, h.typeOf_eq n hn]
  get_eq := by
    intro n hn hinput
    have hne : n ≠ id := fun heq => hn (heq ▸ hid)
    rw [get_setType_of_ne hne, h.get_eq n hn hinput]

section

variable {link : FlowGraph → NodeId → FlowGraph} (h : Relinks id link)
include h

theorem Relinks.rewires (hid : id ∈ changed) :
    g.Rewires (inputs.foldl link g) changed inputs where
  size_eq := foldl_field g inputs size h.size_eq
  frozen_eq := fun n =>
    foldl_field g inputs (fun g => (g.get n).frozen) fun g input => h.frozen_eq g input n
  typeOf_eq := fun n _ => foldl_field g inputs (·.typeOf n) fun g input => h.typeOf_eq g input n
  get_eq := by
    intro n hn hinput
    refine foldl_preserves (P := fun g' => g'.get n = g.get n) g inputs ?_ rfl
    intro g' input hmem hsame
    rw [h.get_eq g' input n (fun heq => hn (heq ▸ hid)) fun heq => hinput (heq ▸ hmem), hsame]

theorem Relinks.wired (hwired : g.Wired id old observers rule) (hid : id ∉ inputs)
    (hinputs : ((inputs.foldl link g).get id).inputs = all) :
    (inputs.foldl link g).Wired id all observers rule where
  has := by
    rw [foldl_field g inputs size h.size_eq]
    exact hwired.has
  inputs := hinputs
  observers := by
    refine foldl_preserves (P := fun g' => (g'.get id).observers = observers) g inputs ?_
      hwired.observers
    intro g' input hmem hsame
    rw [h.observers_eq g' input id fun heq => hid (heq ▸ hmem), hsame]
  rule := by
    rw [foldl_field g inputs (fun g => (g.get id).rule) fun g input => h.rule_eq g input id]
    exact hwired.rule
  thawed := by
    rw [foldl_field g inputs (fun g => (g.get id).frozen) fun g input => h.frozen_eq g input id]
    exact hwired.thawed

end

theorem Wired.addEdges (h : g.Wired id old observers rule) (hinputs : id ∉ inputs) :
    (inputs.foldl (fun g input => g.addEdge id input) g).Wired id (joinNew old inputs) observers
      rule :=
  (relinks_addEdge id).wired h hinputs (by rw [inputs_addEdges g id h.has hinputs, h.inputs])

theorem Wired.removeEdges (h : g.Wired id old observers rule) (hinputs : id ∉ inputs)
    (hall : ∀ input ∈ old, input ∈ inputs) :
    (inputs.foldl (fun g input => g.removeEdge id input) g).Wired id [] observers rule := by
  refine (relinks_removeEdge id).wired h hinputs ?_
  rw [inputs_removeEdges, if_pos rfl, h.inputs]
  simpa using hall

/-- A node may be given the type it has. -/
theorem setType_self {type : TypeId} (h : g.typeOf id = some type) :
    g.setType id (some type) = g := by
  have hself : ∀ n : FlowNode, n.type = some type → { n with type := some type } = n := by
    rintro ⟨⟩ rfl
    rfl
  obtain ⟨nodes⟩ := g
  refine congrArg FlowGraph.mk (Array.ext (by simp) fun i hi hi' => ?_)
  rw [Array.getElem_modify]
  split
  next heq =>
    have htype : nodes[i].type = some type := by
      subst heq
      simpa [typeOf, get, hi'] using h
    exact hself _ htype
  next => rfl

/-- A node that joins its inputs, and that one other node may follow. -/
structure Feeds (g : FlowGraph) (node : NodeId) (inputs : List NodeId) (follower : Option NodeId) :
    Prop where
  wired : g.Wired node inputs (follower.toList.map .node) .union
  follows : ∀ x ∈ follower, g.Wired x [node] [] .union
  same : ∀ x ∈ follower, g.typeOf x = g.typeOf node

theorem Feeds.ne {x : NodeId} {follower : Option NodeId} (h : g.Feeds node inputs follower)
    (hx : x ∈ follower) : x ≠ node := by
  rintro rfl
  have hobservers := h.wired.observers.symm.trans (h.follows x hx).observers
  rw [show follower = some x from hx] at hobservers
  simp at hobservers

end FlowGraph

theorem TypeTable.Regular.unionOf_singleton {t : TypeTable} {type : TypeId} (h : t.Regular)
    (hc : t.OverClasses) (hk : t.Known type) : (TypeTable.unionOf [type] t).1 = type := by
  have hwidens := TypeTable.unionOf_widens [type] t
  have hknown : ∀ x ∈ [type], t.Known x := by simpa using hk
  have hregular := h.unionOf hknown
  have hoverClasses := hwidens.overClasses hc
  have hjoin := h.unionOf_isJoin hknown (.refl _) hregular hoverClasses
  exact hjoin.unique (.self (hwidens.known hk)) hregular hoverClasses fun _ => Iff.rfl

theorem TypeTable.Regular.derive_singleton {t : TypeTable} {type : TypeId} (h : t.Regular)
    (hc : t.OverClasses) (hk : t.Known type) :
    Rule.union.derive [type] t = (type, (TypeTable.unionOf [type] t).2) :=
  Prod.ext (h.unionOf_singleton hc hk) rfl

/-! ## Updates -/

/-- There is room for another body and another wave. -/
def Session.HasRoom (s : Session) : Prop :=
  s.instantiationDepth < s.options.maxInstantiationDepth ∧
    s.propagationDepth < s.options.maxPropagationDepth

namespace Infer

open FlowGraph

variable {s : Session} {node follower : NodeId} {inputs : List NodeId} {types : List TypeId}
  {observers : List Observer} {g : FlowGraph}

/-- A node that joins the types of its inputs, looked at again. -/
theorem change?_union_returns (h : s.flow.Wired node inputs observers .union)
    (htypes : s.flow.inputTypes node = types) (hne : types ≠ [])
    (hknown : ∀ type ∈ types, s.types.Known type) :
    Returns (change? node) s
      (if some (unionOf types s.types).1 = s.flow.typeOf node then none
        else some (unionOf types s.types).1)
      { s with types := (unionOf types s.types).2 } :=
  change?_wired_returns h (by simp) htypes hne hknown rfl

/-- A node that nobody observes is connected and gets the union of the types of its inputs. -/
theorem connect_unobserved (engine : Engine)
    (hg : inputs.foldl (fun flow input => flow.addEdge node input) s.flow = g)
    (h : g.Wired node all [] .union) (htypes : g.inputTypes node = types) (hne : types ≠ [])
    (hknown : ∀ type ∈ types, s.types.Known type) :
    Returns (connect engine node inputs) s ()
      { s with
        types := (unionOf types s.types).2
        flow := g.setType node (unionOf types s.types).1 } := by
  subst hg
  let s1 : Session :=
    { s with flow := inputs.foldl (fun flow input => flow.addEdge node input) s.flow }
  have hchange := change?_union_returns (s := s1) h htypes hne hknown
  by_cases hsame : some (unionOf types s.types).1 = s1.flow.typeOf node
  · rw [if_pos hsame] at hchange
    rw [setType_self hsame.symm]
    exact hchange.bind_eq
  · rw [if_neg hsame] at hchange
    refine (update_of_change h.thawed hchange engine).trans (notify_of_unobserved engine ?_)
    simpa using h.observers

theorem Returns.deeper {α : Type} {x : Infer α} {a : α} (h : Returns x s.enterWave a s') :
    Returns (Infer.deeper x) s a { s' with propagationDepth := s'.propagationDepth - 1 } := by
  have hrun : x s.enterWave = .ok a s' := h
  rw [Returns, Infer.deeper, hrun]

theorem propagate_one {observer : Observer} (hbudget : engine.budget = budget + 1)
    (h : Returns (wake engine observer) s [] s') :
    Returns (propagate engine engine.budget [observer]) s () s' := by
  rw [hbudget]
  refine h.bind ?_
  rw [List.append_nil, propagate_nil]
  exact .pure () s'

/-- A node that waits follows its only input. -/
theorem wake_follower {type : TypeId} (engine : Engine) (h : s.flow.Wired follower [node] [] .union)
    (hnode : s.flow.typeOf node = some type) (hfollower : s.flow.typeOf follower ≠ some type)
    (hregular : s.types.Regular) (hc : s.types.OverClasses) (hknown : s.types.Known type) :
    Returns (wake engine (.node follower)) s []
      { s with
        types := (unionOf [type] s.types).2
        flow := s.flow.setType follower type } := by
  have htypes : s.flow.inputTypes follower = [type] := by simp [inputTypes, h.inputs, hnode]
  have hchange := change?_union_returns h htypes (by simp) (by simpa using hknown)
  rw [hregular.unionOf_singleton hc hknown, if_neg hfollower.symm] at hchange
  have hwake := wake_of_change h.thawed hchange engine
  rwa [h.observers] at hwake

/-- A node that one other node follows is connected, and both get the union of the types of its
inputs. -/
theorem connect_followed (hbudget : engine.budget = budget + 1)
    (hg : inputs.foldl (fun flow input => flow.addEdge node input) s.flow = g)
    (h : g.Wired node all [.node follower] .union) (hfollower : g.Wired follower [node] [] .union)
    (hsame : g.typeOf follower = g.typeOf node) (htypes : g.inputTypes node = types)
    (hne : types ≠ []) (hknown : ∀ type ∈ types, s.types.Known type) (hregular : s.types.Regular)
    (hc : s.types.OverClasses) (hroom : s.HasRoom) :
    ∃ t' w, (unionOf types s.types).2.Widens t' ∧ t'.Regular ∧
      Returns (connect engine node inputs) s ()
        { s with
          types := t'
          deepestWave := w
          flow := (g.setType node (unionOf types s.types).1).setType follower
            (unionOf types s.types).1 } := by
  subst hg
  let s1 : Session :=
    { s with flow := inputs.foldl (fun flow input => flow.addEdge node input) s.flow }
  have hchange := change?_union_returns (s := s1) h htypes hne hknown
  have hwidens := unionOf_widens types s.types
  have hregular1 := hregular.unionOf hknown
  have hjoin := hregular.unionOf_isJoin hknown (.refl _) hregular1 (hwidens.overClasses hc)
  generalize unionOf types s.types = joined at *
  by_cases hold : some joined.1 = s1.flow.typeOf node
  · rw [if_pos hold] at hchange
    refine ⟨joined.2, s.deepestWave, .refl _, hregular1, ?_⟩
    rw [setType_self hold.symm, setType_self (hsame.trans hold.symm)]
    exact hchange.bind_eq
  · rw [if_neg hold] at hchange
    let s2 : Session := { s1 with types := joined.2, flow := s1.flow.setType node joined.1 }
    have hnotSelf : follower ≠ node := by
      rintro rfl
      have := h.observers.symm.trans hfollower.observers
      simp at this
    have hobservers : (s2.flow.get node).observers = [.node follower] :=
      (h.setType node (some joined.1)).observers
    have hnotify := notify_of_observed (s := s2) engine (by rw [hobservers]; simp) hroom.2
    rw [hobservers] at hnotify
    have htypeOf : s2.flow.typeOf node = some joined.1 := typeOf_setType_self h.has _
    have hnews : s2.flow.typeOf follower ≠ some joined.1 := by
      have hkept : s2.flow.typeOf follower = s1.flow.typeOf follower :=
        typeOf_setType_of_ne hnotSelf.symm _
      rw [hkept]
      exact fun heq => hold (heq.symm.trans hsame)
    have hwake := wake_follower (s := s2.enterWave) engine (hfollower.setType node _) htypeOf hnews
      hregular1 (hwidens.overClasses hc) hjoin.known
    refine ⟨_, s2.enterWave.deepestWave, unionOf_widens [joined.1] joined.2,
      hregular1.unionOf (by simpa using hjoin.known), ?_⟩
    refine (update_of_change h.thawed hchange engine).trans (hnotify.trans ?_)
    exact Returns.deeper (propagate_one hbudget hwake)

/-- A node that joins its inputs gets new ones, and it and its follower get their union. -/
theorem connect_feeds {follower : Option NodeId} (hbudget : engine.budget = budget + 1)
    (h : s.flow.Feeds node old follower) (hnode : node ∉ inputs)
    (hfollower : ∀ x ∈ follower, x ∉ inputs)
    (htypes : (joinNew old inputs).filterMap s.typeOf = types) (hne : types ≠ [])
    (hknown : ∀ type ∈ types, s.types.Known type) (hregular : s.types.Regular)
    (hc : s.types.OverClasses) (hroom : s.HasRoom) :
    ∃ t' g' w,
      Returns (connect engine node inputs) s ()
        { s with types := t', flow := g', deepestWave := w } ∧
      (unionOf types s.types).2.Widens t' ∧ t'.Regular ∧
      g'.Feeds node (joinNew old inputs) follower ∧
      g'.typeOf node = some (unionOf types s.types).1 ∧
      s.flow.Rewires g' (node :: follower.toList) inputs := by
  let g := inputs.foldl (fun flow input => flow.addEdge node input) s.flow
  let joined := (unionOf types s.types).1
  have hwired : g.Wired node (joinNew old inputs) (follower.toList.map .node) .union :=
    h.wired.addEdges hnode
  have hrewires : s.flow.Rewires g (node :: follower.toList) inputs :=
    (relinks_addEdge node).rewires List.mem_cons_self
  have htypeOf : g.typeOf = s.flow.typeOf := by
    funext n
    exact foldl_field s.flow inputs (fun g => g.typeOf n) fun _ _ => typeOf_addEdge _ _ _ _
  have hinputTypes : g.inputTypes node = types := by
    rw [FlowGraph.inputTypes, hwired.inputs, htypeOf]
    exact htypes
  have hself : node ∈ node :: follower.toList := List.mem_cons_self
  cases follower with
  | none =>
    refine ⟨_, g.setType node joined, _,
      connect_unobserved engine rfl hwired hinputTypes hne hknown,
      .refl _, hregular.unionOf hknown, ⟨hwired.setType _ _, by simp, by simp⟩,
      typeOf_setType_self hwired.has _, hrewires.setType hself⟩
  | some x =>
    have hx : g.Wired x [node] [] .union := by
      apply (h.follows x rfl).of_get_eq (hrewires.size_eq.symm.le)
      have hothers : s.flow.Rewires g [node] inputs :=
        (relinks_addEdge node).rewires List.mem_cons_self
      exact hothers.get_eq x (by simpa using h.ne rfl) (hfollower x rfl)
    have hsame : g.typeOf x = g.typeOf node := by
      rw [htypeOf]
      exact h.same x rfl
    obtain ⟨t', w, hwidens, hregular', hrun⟩ := connect_followed hbudget rfl hwired hx hsame
      hinputTypes hne hknown hregular hc hroom
    have hnodeType : ((g.setType node joined).setType x joined).typeOf node = some joined := by
      rw [typeOf_setType_of_ne (h.ne rfl)]
      exact typeOf_setType_self hwired.has _
    have hxType : ((g.setType node joined).setType x joined).typeOf x = some joined :=
      typeOf_setType_self (hx.setType _ _).has _
    refine ⟨t', _, w, hrun, hwidens, hregular', ⟨(hwired.setType _ _).setType _ _, ?_, ?_⟩,
      hnodeType, (hrewires.setType hself).setType (by simp)⟩
    · intro y hy
      cases hy
      exact (hx.setType _ _).setType _ _
    · intro y hy
      cases hy
      exact hxType.trans hnodeType.symm

end Infer

end Callsite
