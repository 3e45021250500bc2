import Callsite.Proofs.Forest.Assignments

/-!
# Calling `coco` over a forest

The call of `coco` finds its targets when it is looked at, and a second variable follows it.  A
class that is declared later either stands below a hierarchy that the call watches, and then the
call is resolved anew, or it adds nothing to what the receiver can be.
-/

namespace Callsite

open TypeTable FlowGraph

variable {u : TypeId} {other : CallId}

open Forest

namespace FlowGraph

variable (g : FlowGraph) (rule : Rule) (span : Span) (input node : NodeId) (type : TypeId)

theorem size_follow : (g.follow rule span input type).size = g.size + 1 := by
  rw [follow, size_setType, attach, size_addEdge]
  exact size_push _ _

theorem frozen_follow (h : (g.get node).frozen = false) :
    ((g.follow rule span input type).get node).frozen = false := by
  rw [follow, frozen_setType, attach, frozen_addEdge, add, get_push]
  split
  · rfl
  · exact h

end FlowGraph

namespace Session

variable {s s' : Session} {classes more : List ClassSource} {taken nodes : List NodeId}
  {vars : NameMap NodeId} {call : CallId} {a x : NodeId} {type : TypeId} {name : String}
  {targets : List InstanceId}

/-- The session with a new node that follows another one. -/
theorem Hosts.following (h : s.Hosts classes taken vars) (hknown : s.types.Known type)
    (input : NodeId) (span : Span) :
    ({ s with
      types := (unionOf [type] s.types).2
      flow := s.flow.follow .union span input type } : Session).Hosts classes taken vars := by
  have hsize := s.flow.size_follow .union span input type
  refine h.change (unionOf_widens _ _) (h.planted.regular.unionOf (by simpa using hknown))
    (by omega) (fun node => s.flow.frozen_follow _ _ _ _ _ (h.stocked.thawed node))
    (fun node hnode _ => typeOf_follow hnode _ _ _ _)
    (fun node hnode => ⟨Or.inl hnode, ?_⟩) le_rfl h.root
  rw [hsize]
  exact Nat.lt_succ_of_lt (h.taken node hnode)

/-- A call gets a follower. -/
theorem Poses.followed {t : TypeTable} {scopes : Array Scope} (h : s.Poses call name type none)
    (hu : s.typeOf (s.call call).node = some u) (span : Span) :
    ({ s with
      types := t
      flow := s.flow.follow .union span (s.call call).node u
      scopes } : Session).Poses call name type (some ⟨s.flow.size⟩) := by
  have hwired : s.flow.Wired (s.call call).node
    (joinNew [] (s.resultNodes (s.call call).resolved)) [] .union := h.feeds.wired
  obtain ⟨hnew, hnode, -⟩ := wired_attach hwired .union span
  obtain ⟨receiver, hreceiver, htype, hout⟩ := h.receiver
  have hhas : receiver.index < s.flow.size := hasNode_of_typeOf htype
  refine ⟨h.has, h.name, h.bare, ⟨receiver, hreceiver, ?_, ?_⟩, h.targets, ⟨?_, ?_, ?_⟩⟩
  · exact (typeOf_follow hhas _ _ _ _).trans htype
  · have hne := ne_of_lt_size hhas
    have hne' : receiver ≠ (s.call call).node := by simpa using hout
    show receiver ∉ [(s.call call).node, ⟨s.flow.size⟩]
    simp [hne, hne']
  · exact hnode.setType _ _
  · rintro x hx
    cases hx
    exact hnew.setType _ _
  · rintro x hx
    cases hx
    have hkept := (typeOf_follow hwired.has .union span (s.call call).node u).trans hu
    exact (typeOf_follow_self hwired _ _ _).trans hkept.symm

/-- A session in which `coco` was called on a variable that was given objects of classes of a
forest. -/
structure Sent (s : Session) (classes : List ClassSource) (nodes : List NodeId)
    (vars : NameMap NodeId) (call : CallId) (a : NodeId) (follower : Option NodeId)
    (type : TypeId) : Prop extends s.Hosts classes nodes vars where
  poses : s.Poses call "coco" type follower
  scope : (s.call call).scope = .root
  mem : (s.call call).node ∈ nodes
  followed : ∀ x ∈ follower, x ∈ nodes
  typed : s.typeOf a = some type
  apart : a ∉ (s.call call).node :: follower.toList
  spans : s.types.Spans classes type
  only : ∀ pair ∈ s.watch.pairs, pair.1 = call
  news : ∀ id, s.HasCall id → id ≠ call → (s.call id).name = "new" ∧ (s.call id).args = []

/-! ## Later declarations -/

section

variable {follower : Option NodeId} {cls : TypeId} {c : ClassSource}

theorem resultNodes_retained (hretains : s.Retains other s')
    (hhas : ∀ id ∈ targets, s.HasInstance id) : s'.resultNodes targets = s.resultNodes targets := by
  apply List.map_congr_left
  intro id hid
  rw [hretains.instances id (hhas id hid)]

theorem Poses.retained (h : s.Poses call name type follower) (hretains : s.Retains other s') :
    s'.Poses call name type follower := by
  have hsite := hretains.call_eq call
  have hresults := resultNodes_retained hretains h.targets
  obtain ⟨receiver, hreceiver, htype, hout⟩ := h.receiver
  constructor
  case has => rw [HasCall, hretains.calls]; exact h.has
  case name => rw [hsite, h.name]
  case bare => rw [hsite]; exact h.bare
  case receiver =>
    rw [hsite]
    exact ⟨receiver, hreceiver, (hretains.typeOf_eq (hasNode_of_typeOf htype)).trans htype, hout⟩
  case targets =>
    rw [hsite]
    exact fun id hid => hretains.hasInstance (h.targets id hid)
  case feeds =>
    rw [hsite, hresults]
    have hnode := h.feeds.wired.has
    refine ⟨h.feeds.wired.of_get_eq hretains.size_le (hretains.nodes _ hnode), fun x hx => ?_,
      fun x hx => ?_⟩
    · have hx' := (h.feeds.follows x hx).has
      exact (h.feeds.follows x hx).of_get_eq hretains.size_le (hretains.nodes _ hx')
    · have hx' := (h.feeds.follows x hx).has
      exact (hretains.typeOf_eq hx').trans
        ((h.feeds.same x hx).trans (hretains.typeOf_eq hnode).symm)

variable (h : s.Sent classes nodes vars call a follower type)
include h

theorem Sent.retained (hretains : s.Retains call s') (hplanted : s'.types.Planted more)
    (hspans : s'.types.Spans more type) : s'.Sent more nodes vars call a follower type := by
  have hsite := hretains.call_eq call
  constructor
  case toHosts => exact hretains.hosts h.toHosts hplanted
  case poses => exact h.poses.retained hretains
  case scope => rw [hsite, h.scope]
  case mem => rw [hsite]; exact h.mem
  case followed => exact h.followed
  case typed => exact (hretains.typeOf_eq (hasNode_of_typeOf h.typed)).trans h.typed
  case apart => rw [hsite]; exact h.apart
  case spans => exact hspans
  case only => exact fun pair hpair => (hretains.watches pair hpair).elim (h.only pair) id
  case news =>
    intro id hid hne
    rw [hretains.call_eq]
    rw [HasCall, hretains.calls] at hid
    exact h.news id hid hne

theorem Sent.unsigned :
    (s.changeCall call ({ · with signature := none })).Sent classes nodes vars call a follower
      type := by
  have hsite := s.call_changeCall_self ({ · with signature := none }) h.poses.has
  constructor
  case toHosts =>
    exact h.toHosts.change (.refl _) h.planted.regular le_rfl h.stocked.thawed
      (fun _ _ _ => rfl) (fun node hnode => ⟨Or.inl hnode, h.taken node hnode⟩) le_rfl
      h.root
  case poses =>
    constructor
    case has => exact (hasCall_changeCall s call call _).2 h.poses.has
    case name => rw [hsite]; exact h.poses.name
    case bare =>
      rw [hsite]
      exact ⟨h.poses.bare.args, h.poses.bare.block, h.poses.bare.blockArg, h.poses.bare.paramEdges,
        h.poses.bare.blockEdges⟩
    case receiver => rw [hsite]; exact h.poses.receiver
    case targets => rw [hsite]; exact h.poses.targets
    case feeds => rw [hsite]; exact h.poses.feeds
  case scope => rw [hsite]; exact h.scope
  case mem => rw [hsite]; exact h.mem
  case followed => exact h.followed
  case typed => exact h.typed
  case apart => rw [hsite]; exact h.apart
  case spans => exact h.spans
  case only => exact h.only
  case news =>
    intro id hid hne
    rw [call_changeCall_of_ne s _ hne.symm]
    exact h.news id ((hasCall_changeCall s call id _).1 hid) hne

end

end Session

namespace TypeTable

variable {t t' : TypeTable} {classes : List ClassSource} {c : ClassSource}
  {type cls x part : TypeId}

theorem Gains.represents (h : t.Gains t' cls) (hplanted : t'.Planted (classes ++ [c]))
    {c' : ClassSource} (hc' : c' ∈ classes) (hr : t.Represents c' type) : t'.Represents c' type :=
  hplanted.represents_of_constant (List.mem_append_left _ hc') (h.constants _ _ hr.constant)

/-- A class that was declared outside of the hierarchies of a type adds nothing to it. -/
theorem Gains.mem_concreteTypes_iff (h : t.Gains t' cls) (ht : t.Planted classes)
    (ht' : t'.Planted (classes ++ [c])) (hspans : t.Spans classes type)
    (hout : ∀ part ∈ t.parts type, ∀ base, t.shape part = .hierarchy base →
      base ∉ (t'.ancestors cls).drop 1) : x ∈ t'.concreteTypes type ↔ x ∈ t.concreteTypes type := by
  have hspans' : t'.Spans (classes ++ [c]) type := hspans.later h.grows fun c' hc' type hr =>
    ⟨c', List.mem_append_left _ hc', h.represents ht' hc' hr⟩
  rw [hspans'.mem_concreteTypes ht'.regular.founded, hspans.mem_concreteTypes ht.regular.founded,
    h.grows.parts_eq hspans.known]
  refine exists_congr fun part => and_congr_right fun hpart => ?_
  rcases hspans.parts part hpart with ⟨c', hc', hr⟩ | ⟨base, hshape, c', hc', hr⟩
  · obtain ⟨info, hinfo, -⟩ := hr.shape
    obtain ⟨info', hinfo', -⟩ := (h.represents ht' hc' hr).shape
    rw [Admits, hinfo', Admits, hinfo]
  · rw [Admits, h.grows.shape_hierarchy hshape, Admits, hshape]
    constructor
    · intro hx
      rcases h.realizes base x hx with hold | rfl
      · exact hold
      · -- The new class is below the base of no hierarchy.
        have hmem := hx.1.mem_ancestors ht'.regular.founded
        have hne : base ≠ x := fun heq => h.fresh (heq ▸ hr.known)
        exact absurd ((List.mem_cons.1 hmem).resolve_left hne) (hout part hpart base hshape)
    · intro hx
      obtain ⟨c'', hc'', hr''⟩ := ht.represents_of_realizes hr hx
      exact ⟨h.grows.standsBelow hx.1, (h.represents ht' hc'' hr'').isConcrete⟩

end TypeTable

/-- The targets of a call go on to serve if a new class does not stand below what it watches. -/
theorem Session.Dispatches.gained
    {s s' : Session} {classes : List ClassSource} {c : ClassSource} {call : CallId}
    {type cls : TypeId} {targets : List InstanceId} (h : s.Dispatches classes call type targets)
    (hretains : s.Retains call s') (hgains : s.types.Gains s'.types cls)
    (ht : s.types.Planted classes) (ht' : s'.types.Planted (classes ++ [c]))
    (hspans : s.types.Spans classes type)
    (hagrees : s'.watch.Agrees)
    (hunnoticed : call ∉ s'.watch.observersOfAny ((s'.types.ancestors cls).drop 1)) :
    s'.Dispatches (classes ++ [c]) call type targets := by
  have hclasses : ∀ c' ∈ classes, c' ∈ classes ++ [c] ∧
      ∀ type, s.types.Represents c' type → s'.types.Represents c' type := fun c' hc' =>
    ⟨List.mem_append_left _ hc', fun type hr => hgains.represents ht' hc' hr⟩
  have hlater : s'.Staffs (classes ++ [c]) (· ∈ s.types.concreteTypes type) targets :=
    h.staffs.later (fun id hid => ⟨hretains.hasInstance hid, hretains.instances id hid⟩)
      fun _ _ _ hprovides => hprovides.later hgains.grows hclasses hgains.constants
  refine ⟨hlater.congr fun x => (hgains.mem_concreteTypes_iff ht ht' hspans ?_).symm, ?_⟩
  · intro part hpart base hshape hmem
    have hpair := hretains.watched _ (h.watched part hpart base hshape)
    exact hunnoticed (hagrees.mem_observersOfAny.2 ⟨base, hmem, hpair⟩)
  · intro part hpart base hshape
    rw [hgains.grows.parts_eq hspans.known] at hpart
    rcases hspans.parts part hpart with ⟨c', hc', hr⟩ | ⟨base', hshape', -⟩
    · obtain ⟨info, hinfo, -⟩ := (hgains.represents ht' hc' hr).shape
      simp [hshape] at hinfo
    · obtain rfl := Shape.hierarchy.inj ((hgains.grows.shape_hierarchy hshape').symm.trans hshape)
      exact hretains.watched _ (h.watched part hpart _ hshape')

namespace Infer

open Session

variable {s : Session} {classes : List ClassSource} {taken nodes : List NodeId} {call : CallId}
  {a x : NodeId} {type : TypeId} {c : ClassSource} (fuel : Nat)

/-- The variable is read. -/
theorem visit_var_returns (h : s.Assigned classes taken a type) (engine : Engine) (span : Span) :
    Returns (visitWith engine .root ⟨.var "a", span⟩) s ⟨s.flow.size⟩
      { s with
        types := (unionOf [type] s.types).2
        flow := s.flow.follow .union span a type } := by
  obtain ⟨inputs, hgathers⟩ := h.gathers
  have hderive := h.planted.regular.derive_singleton h.planted.overClasses h.spans.known
  refine .get_bind ?_
  rw [h.toHosts.findVar?_eq, NameMap.get?_insert_self]
  exact derived_returns engine span hgathers.wired h.typed h.spans.known (by simp) hderive

/-- The new call is calculated. -/
theorem recalculate_asking_runs {receiver : NodeId} {vars : NameMap NodeId}
    (h : s.Prepared classes taken vars) (hforest : IsForest classes)
    (hspans : s.types.Spans classes type) (ha : s.typeOf a = some type)
    (hreceiver : s.typeOf receiver = some type) (span : Span) :
    Runs (recalculateWith (.ofFuel (fuel + 2)) ⟨s.calls.size⟩) (s.asking "coco" receiver span)
      fun _ s' => s'.Sent classes (⟨s.flow.size⟩ :: taken) vars ⟨s.calls.size⟩ a none type ∧
        s'.Dispatches classes ⟨s.calls.size⟩ type (s'.call ⟨s.calls.size⟩).resolved ∧
        (s'.call ⟨s.calls.size⟩).node = ⟨s.flow.size⟩ ∧
        ∃ u, s'.typeOf ⟨s.flow.size⟩ = some u ∧ s'.types.Known u := by
  have hsite : (s.asking "coco" receiver span).call ⟨s.calls.size⟩
      = .fresh ⟨s.flow.size⟩ "coco" (some receiver) .root span := call_asking_self
  have hhosts := h.toHosts.asking "coco" receiver span
  have hrun := recalculate_coco_runs fuel hhosts.toGrown hforest (poses_asking hreceiver)
    (by rw [hsite]; exact List.mem_cons_self) (by simp) hspans (by rw [hsite]; rfl)
  refine hrun.mono ?_
  rintro - s' ⟨targets, hrecalculates, hgrown, hposes, hdispatches, hvalue, hwidens, hwatch⟩
  have hsite' := hrecalculates.site
  rw [hsite] at hsite' hvalue
  have hlt : a.index < s.flow.size := hasNode_of_typeOf ha
  have hapart : a ∉ [(⟨s.flow.size⟩ : NodeId)] := by
    rw [List.mem_singleton]
    rintro rfl
    exact Nat.lt_irrefl _ hlt
  have hhas : (s.asking "coco" receiver span).HasNode a := by
    show a.index < (s.asking "coco" receiver span).flow.size
    rw [size_asking]
    exact Nat.lt_succ_of_lt hlt
  refine ⟨?_, ?_, ?_, hvalue⟩
  · constructor
    case toHosts => exact hrecalculates.hosts hhosts hgrown
    case poses => exact hposes
    case scope => rw [hsite']; rfl
    case mem => rw [hsite']; exact List.mem_cons_self
    case followed => simp
    case typed =>
      rw [hrecalculates.typeOf_eq a hhas (by rw [hsite]; exact hapart), typeOf_asking hlt, ha]
    case apart => rw [hsite']; exact hapart
    case spans => exact hspans.widens hwidens h.planted.regular.founded
    case only =>
      intro pair hpair
      refine (hwatch pair hpair).resolve_left fun hold => ?_
      have hnone : pair ∈ s.watch.pairs := hold
      rw [h.unwatched] at hnone
      exact hnone
    case news =>
      intro id hid hne
      exact hrecalculates.news_asking h hid hne
  · rw [hsite']
    exact hdispatches
  · rw [hsite']
    rfl

/-- The value of the call is assigned to a new variable. -/
theorem assign_sent_runs {vars : NameMap NodeId} (h : s.Sent classes nodes vars call a none type)
    (hdispatches : s.Dispatches classes call type (s.call call).resolved)
    (hu : s.typeOf (s.call call).node = some u) (hknown : s.types.Known u)
    (hnone : vars.get? "x" = none) (engine : Engine) (span : Span) :
    Runs (do
        let var ← declareVar .root "x" span
        connect engine var [(s.call call).node]
        pure (s.call call).node) s fun _ s' => ∃ nodes x,
      s'.Sent classes nodes (vars.insert "x" x) call a (some x) type ∧
        s'.Dispatches classes call type (s'.call call).resolved := by
  have hwired : s.flow.Wired (s.call call).node
    (joinNew [] (s.resultNodes (s.call call).resolved)) [] .union := h.poses.feeds.wired
  have hf := h.planted.regular.founded
  have hderive := h.planted.regular.derive_singleton h.planted.overClasses hknown
  have hconnect := connect_new_returns (s := s.declaring "x" span) engine (g := s.flow) rfl hwired
    hu hknown (by simp) hderive
  have hwidens := unionOf_widens [u] s.types
  have hregular := h.planted.regular.unionOf (by simpa using hknown : ∀ x ∈ [u], s.types.Known x)
  have hdeclaring := h.toHosts.declaring "x" span
  have hsize : (s.declaring "x" span).flow.size = s.flow.size + 1 := size_push _ _
  have hsize' := s.flow.size_follow .union span (s.call call).node u
  have hlt : a.index < s.flow.size := hasNode_of_typeOf h.typed
  refine (declareVar_new_returns h.toHosts hnone span).runs_bind (hconnect.runs_bind ?_)
  refine Returns.runs (.pure _ _) ⟨⟨s.flow.size⟩ :: nodes, ⟨s.flow.size⟩, ?_, ?_⟩
  · constructor
    case toHosts =>
      refine hdeclaring.change (g := s.flow.follow .union span (s.call call).node u) hwidens
        hregular (by omega) (fun node => ?_) (fun node hnode hout => ?_)
        (fun node hnode => ⟨Or.inl hnode, ?_⟩) le_rfl hdeclaring.root
      · exact s.flow.frozen_follow _ _ _ _ _ (h.stocked.thawed node)
      · have hold : node.index < s.flow.size := by
          have hne : node.index ≠ s.flow.size := fun heq =>
            hout (List.mem_cons.2 (Or.inl (congrArg NodeId.mk heq)))
          have hnode' : node.index < s.flow.size + 1 := hsize ▸ hnode
          omega
        exact (typeOf_follow hold _ _ _ _).trans (typeOf_push_of_lt _ _ _ hold).symm
      · have hnode' := hdeclaring.taken node hnode
        rw [hsize', ← hsize]
        exact hnode'
    case poses => exact h.poses.followed hu span
    case scope => exact h.scope
    case mem => exact List.mem_cons_of_mem _ h.mem
    case followed =>
      intro x hx
      cases hx
      exact List.mem_cons_self
    case typed => exact (typeOf_follow hlt _ _ _ _).trans h.typed
    case apart =>
      have hne := ne_of_lt_size hlt
      have hne' : a ≠ (s.call call).node := by simpa using h.apart
      show a ∉ [(s.call call).node, ⟨s.flow.size⟩]
      simp [hne, hne']
    case spans => exact h.spans.widens hwidens hf
    case only => exact h.only
    case news => exact h.news
  · exact hdispatches.widened hwidens hf hregular.founded h.spans.known rfl rfl

/-- `coco` is called on the variable, and the result is assigned. -/
theorem visit_sending_runs (h : s.Assigned classes taken a type) (hforest : IsForest classes)
    (sending : Sending) :
    Runs (visitWith (.ofFuel (fuel + 4)) .root sending.expr) s fun _ s' => ∃ nodes call x,
      s'.Sent classes nodes ((NameMap.empty.insert "a" a).insert "x" x) call a (some x) type ∧
        s'.Dispatches classes call type (s'.call call).resolved := by
  obtain ⟨inputs, hgathers⟩ := h.gathers
  have hwidens := unionOf_widens [type] s.types
  have hread := visit_var_returns h (.ofFuel (fuel + 2)) sending.varSpan
  have hprepared := h.change (h.toHosts.following h.spans.known a sending.varSpan)
  have hspans := h.spans.widens hwidens h.planted.regular.founded
  have hlt : a.index < s.flow.size := hasNode_of_typeOf h.typed
  have hrun := recalculate_asking_runs fuel hprepared hforest hspans
    ((typeOf_follow hlt _ _ _ _).trans h.typed)
    (typeOf_follow_self hgathers.wired _ _ _) sending.callSpan
  refine (visitCall_runs hread sending.callSpan hrun).bind ?_
  rintro node s1 ⟨rfl, hsent, hdispatches, hnode, u, hu, hknown⟩
  rw [← hnode] at hu ⊢
  refine (assign_sent_runs hsent hdispatches hu hknown ?_ _ sending.span).mono ?_
  · rfl
  · rintro - s2 ⟨nodes, x, hsent2⟩
    exact ⟨nodes, _, x, hsent2⟩

section

variable {vars : NameMap NodeId} {follower : Option NodeId}

/-- The call is resolved anew. -/
theorem renew_runs (h : s.Sent classes nodes vars call a follower type)
    (hforest : IsForest classes) :
    Runs (resolveAnew (.ofFuel (fuel + 3)) call) s fun _ s' =>
      s'.Sent classes nodes vars call a follower type ∧
        s'.Dispatches classes call type (s'.call call).resolved := by
  have hunsigned := h.unsigned
  have hsite := s.call_changeCall_self ({ · with signature := none }) h.poses.has
  have hset : Returns (modifyCall call fun site => { site with signature := none }) s ()
    (s.changeCall call ({ · with signature := none })) := rfl
  have hrun := recalculate_coco_runs fuel hunsigned.toGrown hforest hunsigned.poses
    hunsigned.mem hunsigned.followed hunsigned.spans (by rw [hsite])
  refine hset.runs_bind (hrun.mono ?_)
  rintro - s' ⟨targets, hrecalculates, hgrown, hposes, hdispatches, -, hwidens, hwatch⟩
  have hsite' := hrecalculates.site
  refine ⟨?_, by rw [hsite']; exact hdispatches⟩
  constructor
  case toHosts => exact hrecalculates.hosts hunsigned.toHosts hgrown
  case poses => exact hposes
  case scope => rw [hsite']; exact hunsigned.scope
  case mem => rw [hsite']; exact hunsigned.mem
  case followed => exact h.followed
  case typed =>
    rw [hrecalculates.typeOf_eq a (hasNode_of_typeOf hunsigned.typed) hunsigned.apart]
    exact hunsigned.typed
  case apart => rw [hsite']; exact hunsigned.apart
  case spans => exact hunsigned.spans.widens hwidens hunsigned.planted.regular.founded
  case only => exact fun pair hpair => (hwatch pair hpair).elim (hunsigned.only pair) id
  case news =>
    intro id hid hne
    rw [hrecalculates.others id hne]
    rw [HasCall, hrecalculates.calls_size] at hid
    exact hunsigned.news id hid hne

/-- The calls that are told of a new class are one, however often it is listed. -/
theorem renew_all_runs (calls : List CallId) (hcalls : ∀ id ∈ calls, id = call)
    (h : s.Sent classes nodes vars call a follower type) (hforest : IsForest classes) :
    Runs (calls.forM (resolveAnew (.ofFuel (fuel + 3)))) s fun _ s' =>
      s'.Sent classes nodes vars call a follower type ∧
        ((calls = [] ∧ s' = s) ∨ s'.Dispatches classes call type (s'.call call).resolved) := by
  induction calls generalizing s with
  | nil => exact Returns.runs (.pure _ _) ⟨h, Or.inl ⟨rfl, rfl⟩⟩
  | cons first rest ih =>
    obtain rfl := hcalls first List.mem_cons_self
    refine (renew_runs _ h hforest).bind ?_
    rintro - s1 ⟨hsent, hdispatches⟩
    refine (ih (List.forall_mem_cons.1 hcalls).2 hsent).mono ?_
    rintro - s2 ⟨hsent2, ⟨-, rfl⟩ | hdispatches2⟩
    · exact ⟨hsent, Or.inr hdispatches⟩
    · exact ⟨hsent2, Or.inr hdispatches2⟩

variable (h : s.Sent classes nodes vars call a follower type)
  (hdispatches : s.Dispatches classes call type (s.call call).resolved) (hforest : IsForest classes)
include h hdispatches hforest

/-- A class is declared after the call. -/
theorem visit_class_sent_runs (hfits : c.FitsAfter classes) :
    Runs (visitWith (.ofFuel (fuel + 3)) .root c.expr) s fun _ s' =>
      s'.Sent (classes ++ [c]) nodes vars call a follower type ∧
        s'.Dispatches (classes ++ [c]) call type (s'.call call).resolved := by
  refine (visit_class_runs (P := fun s' =>
      s'.Sent (classes ++ [c]) nodes vars call a follower type ∧
        s'.Dispatches (classes ++ [c]) call type (s'.call call).resolved)
    _ h.toHosts hfits call fun cls s' hretains hwatch hplanted hgains => ?_).mono ?_
  · have hspans : s'.types.Spans (classes ++ [c]) type := h.spans.later hgains.grows
      fun c' hc' type hr => ⟨c', List.mem_append_left _ hc', hgains.represents hplanted hc' hr⟩
    have hsent := h.retained hretains hplanted hspans
    have honly : ∀ id ∈ s'.watch.observersOfAny ((s'.types.ancestors cls).drop 1), id = call := by
      intro id hid
      obtain ⟨base, -, hpair⟩ := hsent.agrees.mem_observersOfAny.1 hid
      exact hsent.only _ hpair
    refine .get_bind ((renew_all_runs _ _ honly hsent (hforest.snoc hfits)).mono ?_)
    rintro - s'' ⟨hsent', ⟨hnone, rfl⟩ | hdispatches'⟩
    · refine ⟨hsent', ?_⟩
      rw [hretains.call_eq]
      refine hdispatches.gained hretains hgains h.planted hplanted h.spans hsent.agrees ?_
      rw [hnone]
      exact List.not_mem_nil
    · exact ⟨hsent', hdispatches'⟩
  · rintro - _ ⟨s', ⟨hsent, hdispatches'⟩, rfl⟩
    have hretains : s'.Retains call (s'.withFlow (s'.flow.addTyped .nil c.span).2) :=
      .noded s' _ rfl
    refine ⟨hsent.retained hretains hsent.planted hsent.spans, ?_⟩
    exact hdispatches'.widened (.refl _) hsent.planted.regular.founded hsent.planted.regular.founded
      hsent.spans.known rfl rfl

/-- Classes are declared one after the other after the call. -/
theorem visit_classes_sent_runs {rest : List ClassSource} (hrest : Declarable classes rest) :
    Runs ((rest.map ClassSource.expr).mapM (visitWith (.ofFuel (fuel + 3)) .root)) s fun _ s' =>
      s'.Sent (classes ++ rest) nodes vars call a follower type ∧
        s'.Dispatches (classes ++ rest) call type (s'.call call).resolved := by
  induction rest generalizing s classes with
  | nil =>
    rw [List.append_nil]
    exact Returns.runs (.pure _ _) ⟨h, hdispatches⟩
  | cons c rest ih =>
    rw [List.map_cons, List.mapM_cons]
    refine (visit_class_sent_runs _ h hdispatches hforest hrest.1).bind ?_
    rintro - s' ⟨hsent, hdispatches'⟩
    refine (ih hsent hdispatches' (hforest.snoc hrest.1) hrest.2).bind ?_
    intro _ s'' hs''
    rw [List.append_assoc] at hs''
    exact Returns.runs (.pure _ _) hs''

end

end Infer

end Callsite
