import Callsite.Proofs.Engine.Recalculation
import Callsite.Proofs.Forest.Constructors

/-!
# Recalculating calls over a forest

A call without arguments that is resolved anew drops what it was bound to, finds its targets and is
connected with their results.  The rest of the session stays as it is, apart from a node that may
follow the call.
-/

namespace Callsite

open Forest FlowGraph

variable {node : NodeId} {targets : List InstanceId} {follower : Option NodeId}
  {classes : List ClassSource} {taken : List NodeId}

theorem Engine.budget_ofFuel (fuel : Nat) : (ofFuel (fuel + 1)).budget = fuel := rfl

/-- A call without arguments and without a block, that binds no parameters. -/
structure CallSite.IsBare (site : CallSite) : Prop where
  args : site.args = []
  block : site.block = none
  blockArg : site.blockArg = none
  paramEdges : site.paramEdges = []
  blockEdges : site.blockEdges = []

namespace Session

variable {s s' : Session} {call : CallId} {name : String} {type : TypeId} {follower : Option NodeId}
  {taken : List NodeId} {classes : List ClassSource} {signature : List TypeId}

/-- A call is about to be resolved, and watches nothing. -/
def cleared (s : Session) (call : CallId) (signature : List TypeId) : Session :=
  { s.reopened call signature with watch := s.watch.removeCall call }

/-- A call on a receiver of the given type, with a node that another one may follow. -/
structure Poses (s : Session) (call : CallId) (name : String) (type : TypeId)
    (follower : Option NodeId) : Prop where
  has : s.HasCall call
  name : (s.call call).name = name
  bare : (s.call call).IsBare
  receiver : ∃ node, (s.call call).receiver = some node ∧ s.typeOf node = some type ∧
    node ∉ (s.call call).node :: follower.toList
  targets : ∀ id ∈ (s.call call).resolved, s.HasInstance id
  feeds : s.flow.Feeds (s.call call).node
    (joinNew [] (s.resultNodes (s.call call).resolved)) follower

/-- A call that was resolved is connected with the results of its targets. -/
structure Binds (s : Session) (call : CallId) (targets : List InstanceId) (follower : Option NodeId)
    (s' : Session) : Prop where
  change : ∃ t g w, s' =
    { s.changeCall call ({ · with targets := some targets }) with
      types := t, flow := g, deepestWave := w }
  widens : s.types.Widens s'.types
  regular : s'.types.Regular
  feeds : s'.flow.Feeds (s.call call).node (joinNew [] (s.resultNodes targets)) follower
  rewires : s.flow.Rewires s'.flow ((s.call call).node :: follower.toList) (s.resultNodes targets)
  typeOf_node : s'.typeOf (s.call call).node
    = some (TypeTable.unionOf ((joinNew [] (s.resultNodes targets)).filterMap s.typeOf)
        s.types).1
  known : ∀ u, s'.typeOf (s.call call).node = some u → s'.types.Known u

/-- A call is resolved to its targets, and the rest is left alone: apart from the node of the call
and its follower, nodes keep their types, and those that are taken also their edges. -/
structure Recalculates (s : Session) (call : CallId) (type : TypeId) (targets : List InstanceId)
    (follower : Option NodeId) (taken : List NodeId) (s' : Session) : Prop where
  size_le : s.flow.size ≤ s'.flow.size
  typeOf_eq : ∀ node, s.HasNode node → node ∉ (s.call call).node :: follower.toList →
    s'.typeOf node = s.typeOf node
  get_eq : ∀ node ∈ taken, node ∉ (s.call call).node :: follower.toList →
    s'.flow.get node = s.flow.get node
  calls_size : s'.calls.size = s.calls.size
  site : s'.call call = { (s.call call).opened [type] with targets := some targets }
  others : ∀ other, other ≠ call → s'.call other = s.call other
  scopes_le : s.scopes.size ≤ s'.scopes.size
  scopes : ∀ scope : ScopeId, scope.index < s.scopes.size → s'.scope scope = s.scope scope

theorem hasNode_of_typeOf (h : s.typeOf node = some type) : s.HasNode node := by
  by_contra hnot
  have hblank := FlowGraph.get_of_not_lt s.flow node hnot
  simp [typeOf, FlowGraph.typeOf, hblank, default] at h

theorem call_cleared (h : s.HasCall call) (signature : List TypeId) :
    (s.cleared call signature).call call = (s.call call).opened signature :=
  s.call_reopened h signature

/-- The results of instances have types. -/
theorem Stocked.known_of_mem_results {value : TypeId} (hs : s.Stocked taken) (hf : s.types.Founded)
    (hhas : ∀ id ∈ targets, s.HasInstance id)
    (hvalue : value ∈ (joinNew [] (s.resultNodes targets)).filterMap s.typeOf) :
    s.types.Known value := by
  obtain ⟨node, hnode, htypeOf⟩ := List.mem_filterMap.1 hvalue
  obtain ⟨id, hid, rfl⟩ := List.mem_map.1 (mem_joinNew_nil.1 hnode)
  obtain ⟨value', hevaluates, hvalue'⟩ := (hs.settled id (hhas id hid)).value
  rw [Option.some.inj (htypeOf.symm.trans hvalue')]
  exact hevaluates.known_type hf

theorem Stocked.results_ne_nil (hs : s.Stocked taken) (hhas : ∀ id ∈ targets, s.HasInstance id)
    (hne : targets ≠ []) : (joinNew [] (s.resultNodes targets)).filterMap s.typeOf ≠ [] := by
  obtain ⟨id, hid⟩ := List.exists_mem_of_ne_nil targets hne
  obtain ⟨value, -, hvalue⟩ := (hs.settled id (hhas id hid)).value
  have hnode : (s.instanceAt id).node ∈ s.resultNodes targets := List.mem_map_of_mem hid
  exact List.ne_nil_of_mem (List.mem_filterMap.2 ⟨_, mem_joinNew_nil.2 hnode, hvalue⟩)

namespace Poses

variable (h : s.Poses call name type follower)
include h

/-- The results of the targets are none of the nodes taken. -/
theorem not_mem_results (hs : s.Stocked taken) (hnode : node ∈ taken) :
    node ∉ s.resultNodes (s.call call).resolved := by
  intro hmem
  obtain ⟨id, hid, rfl⟩ := List.mem_map.1 hmem
  exact (hs.settled id (h.targets id hid)).apart hnode

theorem flow_cleared : (s.cleared call signature).flow
      = (s.resultNodes (s.call call).resolved).foldl
          (fun flow input => flow.removeEdge (s.call call).node input) s.flow := by
  simp [cleared, reopened, h.bare.paramEdges, h.bare.blockEdges]

theorem rewires_cleared (signature : List TypeId) :
    s.flow.Rewires (s.cleared call signature).flow [(s.call call).node]
      (s.resultNodes (s.call call).resolved) := by
  rw [h.flow_cleared]
  exact (relinks_removeEdge _).rewires List.mem_cons_self

theorem typeOf_cleared (node : NodeId) :
    (s.cleared call signature).typeOf node = s.typeOf node := by
  rw [typeOf, h.flow_cleared]
  exact foldl_field s.flow _ (fun g => g.typeOf node) fun _ _ =>
    typeOf_removeEdge _ _ _ _

/-- Before it is resolved anew the node of a call depends on nothing. -/
theorem feeds_cleared (hs : s.Stocked taken) (hnode : (s.call call).node ∈ taken)
    (hfollower : ∀ x ∈ follower, x ∈ taken) (signature : List TypeId) :
    (s.cleared call signature).flow.Feeds (s.call call).node [] follower := by
  have hrewires := h.rewires_cleared signature
  constructor
  case wired =>
    rw [h.flow_cleared]
    refine h.feeds.wired.removeEdges (h.not_mem_results hs hnode) fun input hinput => ?_
    exact mem_joinNew_nil.1 hinput
  case follows =>
    intro x hx
    apply (h.feeds.follows x hx).of_get_eq (hrewires.size_eq.symm.le)
    exact hrewires.get_eq x (by simpa using h.feeds.ne hx) (h.not_mem_results hs (hfollower x hx))
  case same =>
    intro x hx
    exact (h.typeOf_cleared x).trans ((h.feeds.same x hx).trans (h.typeOf_cleared _).symm)

theorem stocked_cleared (hs : s.Stocked taken) : (s.cleared call signature).Stocked taken := by
  have hrewires := h.rewires_cleared signature
  refine hs.later (.refl _) (hrewires.size_eq.symm.le) (fun node => ?_) rfl (fun _ => rfl)
    (fun node _ _ => h.typeOf_cleared node) fun _ => Or.inl
  rw [hrewires.frozen_eq, hs.thawed]

theorem ready_cleared (hgrown : s.Grown classes taken) (signature : List TypeId) :
    (s.cleared call signature).Ready classes taken call where
  planted := hgrown.planted
  stocked := h.stocked_cleared hgrown.stocked
  taken := by
    intro node hnode
    have hsize := (h.rewires_cleared signature).size_eq
    have hlt : node.index < s.flow.size := hgrown.taken node hnode
    show node.index < (s.cleared call signature).flow.size
    rwa [hsize]
  agrees := hgrown.agrees.removeCall call
  room := hgrown.room
  args := by rw [call_cleared h.has, h.bare.args]
  block := by rw [call_cleared h.has, h.bare.block]

end Poses

section

variable {s'' : Session} {targets : List InstanceId}
  (hgrown : s.Grown classes taken)
  (h : s.Poses call name type follower)
  (hnode : (s.call call).node ∈ taken)
  (hfollower : ∀ x ∈ follower, x ∈ taken)
  (hretains : (s.cleared call [type]).Retains call s')
  (hhas : ∀ id ∈ targets, s'.HasInstance id)
  (hbinds : s'.Binds call targets follower s'')

include h hretains in
theorem Poses.call_retained :
    s'.call call = (s.call call).opened [type] :=
  (hretains.call_eq call).trans (call_cleared h.has [type])

include hgrown h hretains hhas in
/-- The results of what a call is resolved to are none of the nodes taken. -/
theorem Poses.not_mem_targets (hnode : node ∈ taken) : node ∉ s'.resultNodes targets := by
  have hready := h.ready_cleared hgrown [type]
  intro hmem
  obtain ⟨id, hid, rfl⟩ := List.mem_map.1 hmem
  exact ((hretains.stocked taken hready.taken hready.stocked).settled id (hhas id hid)).apart hnode

include hgrown h hretains hhas hbinds in
theorem Binds.recalculates : s.Recalculates call type targets follower taken s'' := by
  have hready := h.ready_cleared hgrown [type]
  have hsite := h.call_retained hretains
  have hcleared := h.rewires_cleared [type]
  have hrewires := hbinds.rewires
  have hsize : (s.cleared call [type]).flow.size = s.flow.size := hcleared.size_eq
  have hcalls : s'.HasCall call := by
    rw [HasCall, hretains.calls]
    exact (hasCall_changeCall s call call _).2 h.has
  rw [hsite] at hrewires
  obtain ⟨t, g, w, rfl⟩ := hbinds.change
  constructor
  case size_le =>
    rw [hrewires.size_eq, ← hsize]
    exact hretains.size_le
  case typeOf_eq =>
    intro node hhasNode hout
    have hlater : (s.cleared call [type]).HasNode node := by
      rw [HasNode, hsize]
      exact hhasNode
    exact (hrewires.typeOf_eq node hout).trans
      ((hretains.typeOf_eq hlater).trans (h.typeOf_cleared node))
  case get_eq =>
    intro node hmem hout
    have hne : node ∉ [(s.call call).node] := fun heq =>
      hout (List.mem_cons.2 (Or.inl (List.mem_singleton.1 heq)))
    rw [hrewires.get_eq node hout (h.not_mem_targets hgrown hretains hhas hmem),
      hretains.nodes node (hready.taken node hmem),
      hcleared.get_eq node hne (h.not_mem_results hgrown.stocked hmem)]
  case calls_size =>
    have hretained : s'.calls.size = s.calls.size := by
      rw [hretains.calls]
      exact Array.size_modify
    exact Array.size_modify.trans hretained
  case site =>
    refine (call_changeCall_self s' _ hcalls).trans ?_
    rw [hsite]
  case others =>
    intro other hne
    refine (call_changeCall_of_ne s' _ hne.symm).trans ?_
    rw [hretains.call_eq]
    exact call_changeCall_of_ne s _ hne.symm
  case scopes_le => exact hretains.scopes_le
  case scopes => exact hretains.scopes

include hgrown h hnode hfollower hretains hbinds in
theorem Binds.grown (hplanted : s'.types.Planted classes) : s''.Grown classes taken := by
  have hready := h.ready_cleared hgrown [type]
  have hstocked := hretains.stocked taken hready.taken hready.stocked
  have hrewires := hbinds.rewires
  rw [h.call_retained hretains] at hrewires
  have hchanged : ∀ node ∉ taken, node ∉ (s.call call).node :: follower.toList := by
    intro node hout hmem
    rcases List.mem_cons.1 hmem with rfl | hmem
    · exact hout hnode
    · exact hout (hfollower node (Option.mem_toList.1 hmem))
  obtain ⟨t, g, w, rfl⟩ := hbinds.change
  refine ⟨hplanted.widens hbinds.widens hbinds.regular, ?_, ?_, hretains.agrees hready.agrees,
    hretains.room hready.room⟩
  · refine hstocked.later hbinds.widens.grows (hrewires.size_eq.symm.le) (fun node => ?_)
      rfl (fun _ => rfl) (fun node _ hout => hrewires.typeOf_eq node (hchanged node hout))
      fun _ => Or.inl
    rw [hrewires.frozen_eq]
    exact hstocked.thawed node
  · intro node hmem
    have hlt : node.index < s'.flow.size :=
      (hready.taken node hmem).trans_le hretains.size_le
    show node.index < g.size
    rwa [show g.size = s'.flow.size from hrewires.size_eq]

include hgrown h hretains hhas hbinds in
theorem Binds.poses : s''.Poses call name type follower := by
  have hrecalculates := hbinds.recalculates hgrown h hretains hhas
  have hsite := hrecalculates.site
  have hfeeds := hbinds.feeds
  rw [h.call_retained hretains] at hfeeds
  obtain ⟨node, hreceiver, htype, hout⟩ := h.receiver
  constructor
  case has =>
    rw [HasCall, hrecalculates.calls_size]
    exact h.has
  case name => rw [hsite, h.name]
  case bare =>
    rw [hsite]
    exact ⟨h.bare.args, h.bare.block, h.bare.blockArg, rfl, rfl⟩
  case receiver =>
    rw [hsite]
    refine ⟨node, hreceiver, ?_, hout⟩
    rw [hrecalculates.typeOf_eq node (hasNode_of_typeOf htype) hout, htype]
  case targets =>
    rw [hsite]
    obtain ⟨t, g, w, rfl⟩ := hbinds.change
    exact hhas
  case feeds =>
    rw [hsite]
    obtain ⟨t, g, w, rfl⟩ := hbinds.change
    exact hfeeds

end

end Session

namespace Infer

variable {s : Session} {call : CallId} {engine : Engine} {type : TypeId} {node : NodeId}
  {Q : Session → Prop}

/-- A call is resolved: first what it was bound to is dropped, and in the end it is connected with
what it was resolved to. -/
theorem resolveFor_runs {receiver : Option TypeId} (hcall : s.HasCall call)
    (hbare : (s.call call).IsBare) (signature : List TypeId)
    (h : Runs (resolve engine call receiver) (s.cleared call signature) fun targets s' =>
      (s'.call call).targets = none ∧
        Runs (connect engine (s'.call call).node (s'.resultNodes targets))
          (s'.changeCall call ({ · with targets := some targets })) fun _ => Q) :
    Runs (resolveFor engine call receiver signature) s fun _ => Q := by
  have hsite := s.call_reopened hcall signature
  have hcleared : (s.cleared call signature).call call = (s.reopened call signature).call call :=
    rfl
  rw [hsite] at hcleared
  have hreset : Returns (reopen call signature) s () (s.cleared call signature) := by
    refine .get_bind ?_
    simp only [hbare.block]
    rfl
  have hexpand : Returns (expandBlockArg call) (s.cleared call signature) ()
      (s.cleared call signature) := by
    refine .get_bind ?_
    simp only [hcleared, hbare.blockArg]
    exact .pure _ _
  have hwatch : Returns (watchArguments call) (s.cleared call signature) ()
      (s.cleared call signature) := by
    refine .get_bind ?_
    simp only [Session.argTypes, hcleared, CallSite.argNodes, hbare.args]
    split <;> exact .pure _ _
  refine hreset.runs_bind (hexpand.runs_bind (hwatch.runs_bind (h.bind ?_)))
  rintro targets s' ⟨hnone, hconnect⟩
  refine .get_bind ?_
  simp only [hnone, Option.isNone_none, if_true]
  have hset : Returns (modifyCall call fun site => { site with targets := some targets }) s' ()
    (s'.changeCall call ({ · with targets := some targets })) := rfl
  exact hset.runs_bind hconnect

/-- A call whose receiver has a type is resolved if it has no signature. -/
theorem recalculateWith_runs {receiver : NodeId} (hbare : (s.call call).IsBare)
    (hreceiver : (s.call call).receiver = some receiver) (htype : s.typeOf receiver = some type)
    (hknown : s.types.Known type) (hlibrary : ∀ info, s.types.shape type ≠ .library info)
    (hsignature : (s.call call).signature = none)
    (h : Runs (resolveFor engine call (some type) [type]) s fun _ => Q) :
    Runs (recalculateWith engine call) s fun _ => Q := by
  have hinputs : s.inputTypes? call = some [type] := by
    simp [Session.inputTypes?, CallSite.inputs, CallSite.argNodes, hbare.args, hbare.blockArg,
      hreceiver, htype]
  have hforbid : Returns (forbidOut call) s () s := by
    refine .get_bind ?_
    simp only [hbare.args, List.find?_nil]
    exact .pure _ _
  have hplain : Runs (recalculatePlain engine call (some type)) s fun _ => Q := by
    refine .get_bind ?_
    simp only [hreceiver, Option.isSome_some, Bool.or_true, if_true]
    refine hforbid.runs_bind (.get_bind ?_)
    simp only [CallSite.argNodes, hbare.args, List.map_nil, List.any_nil, Bool.false_eq_true,
      if_false, hinputs, hsignature, reduceCtorEq]
    exact h
  have hk : Returns (known type) s () s := by
    have hlt : type.index < s.types.size := hknown
    refine .get_bind ?_
    rw [if_pos hlt]
    exact .pure _ _
  refine .get_bind ?_
  simp only [hreceiver, Option.bind_some, htype]
  refine hk.runs_bind ?_
  cases hshape : s.types.shape type with
  | library info => exact absurd hshape (hlibrary info)
  | _ => exact hplain

/-- A call that poses a question is recalculated: it is resolved, and connected with the results. -/
theorem recalculate_runs {name : String} {budget : Nat} {P : List InstanceId → Session → Prop}
    (hgrown : s.Grown classes taken) (h : s.Poses call name type follower)
    (hnode : (s.call call).node ∈ taken) (hfollower : ∀ x ∈ follower, x ∈ taken)
    (hknown : s.types.Known type) (hlibrary : ∀ info, s.types.shape type ≠ .library info)
    (hsignature : (s.call call).signature = none) (hbudget : engine.budget = budget + 1)
    (hresolve : Runs (resolve engine call (some type)) (s.cleared call [type]) P)
    (hfound : ∀ targets s', P targets s' → (s.cleared call [type]).Retains call s' ∧
      s'.types.Planted classes ∧ targets ≠ [] ∧ ∀ id ∈ targets, s'.HasInstance id) :
    Runs (recalculateWith engine call) s fun _ s'' => ∃ targets s',
      P targets s' ∧ s'.Binds call targets follower s'' ∧
        s.Recalculates call type targets follower taken s'' ∧ s''.Grown classes taken ∧
        s''.Poses call name type follower := by
  obtain ⟨receiver, hreceiver, htype, -⟩ := h.receiver
  have hready := h.ready_cleared hgrown [type]
  have hfeeds := h.feeds_cleared hgrown.stocked hnode hfollower [type]
  refine recalculateWith_runs h.bare hreceiver htype hknown hlibrary hsignature ?_
  refine resolveFor_runs h.has h.bare [type] (hresolve.mono ?_)
  intro targets s' hp
  obtain ⟨hretains, hplanted, hne, hhas⟩ := hfound targets s' hp
  have hsite := h.call_retained hretains
  have hstocked := hretains.stocked taken hready.taken hready.stocked
  have happart : ∀ n ∈ taken, n ∉ s'.resultNodes targets := fun n hn =>
    h.not_mem_targets hgrown hretains hhas hn
  have hknownTypes : ∀ value ∈ (FlowGraph.joinNew [] (s'.resultNodes targets)).filterMap s'.typeOf,
      s'.types.Known value := fun value =>
    hstocked.known_of_mem_results hplanted.regular.founded hhas
  have hneTypes := hstocked.results_ne_nil hhas hne
  have hfeeds' : s'.flow.Feeds (s.call call).node [] follower := by
    have hsize := hretains.size_le
    have hnodes : ∀ n ∈ taken, s'.flow.get n = (s.cleared call [type]).flow.get n := fun n hn =>
      hretains.nodes n (hready.taken n hn)
    refine ⟨hfeeds.wired.of_get_eq hsize (hnodes _ hnode), fun x hx => ?_, fun x hx => ?_⟩
    · exact (hfeeds.follows x hx).of_get_eq hsize (hnodes x (hfollower x hx))
    · rw [FlowGraph.typeOf, hnodes x (hfollower x hx), FlowGraph.typeOf, hnodes _ hnode]
      exact hfeeds.same x hx
  obtain ⟨t, g, w, hrun, hwidens, hregular, hconnected, htypeOf, hrewires⟩ := connect_feeds
    (s := s'.changeCall call ({ · with targets := some targets })) hbudget hfeeds'
    (happart _ hnode) (fun x hx => happart x (hfollower x hx)) rfl hneTypes hknownTypes
    hplanted.regular hplanted.overClasses (hretains.room hready.room)
  have hbinds : s'.Binds call targets follower
      { s'.changeCall call ({ · with targets := some targets }) with
        types := t, flow := g, deepestWave := w } := by
    have hjoin := hplanted.regular.unionOf_isJoin hknownTypes (.refl _)
      (hplanted.regular.unionOf hknownTypes)
      ((TypeTable.unionOf_widens _ s'.types).overClasses hplanted.overClasses)
    have hwidens' := (TypeTable.unionOf_widens _ s'.types).trans hwidens
    refine ⟨⟨t, g, w, rfl⟩, hwidens', hregular, ?_, ?_, ?_, ?_⟩
    all_goals rw [hsite]
    · exact hconnected
    · exact hrewires
    · exact htypeOf
    · intro u hu
      rw [← Option.some.inj (htypeOf.symm.trans hu)]
      exact hwidens.known hjoin.known
  refine ⟨by rw [hsite], ?_⟩
  rw [hsite]
  exact hrun.runs ⟨targets, s', hp, hbinds, hbinds.recalculates hgrown h hretains hhas,
    hbinds.grown hgrown h hnode hfollower hretains hplanted, hbinds.poses hgrown h hretains hhas⟩

/-- A call of `coco` is recalculated. -/
theorem recalculate_coco_runs (fuel : Nat) (hgrown : s.Grown classes taken)
    (hforest : IsForest classes) (h : s.Poses call "coco" type follower)
    (hnode : (s.call call).node ∈ taken) (hfollower : ∀ x ∈ follower, x ∈ taken)
    (hspans : s.types.Spans classes type) (hsignature : (s.call call).signature = none) :
    Runs (recalculateWith (.ofFuel (fuel + 2)) call) s fun _ s'' => ∃ targets,
      s.Recalculates call type targets follower taken s'' ∧ s''.Grown classes taken ∧
        s''.Poses call "coco" type follower ∧ s''.Dispatches classes call type targets ∧
        (∃ u, s''.typeOf (s.call call).node = some u ∧ s''.types.Known u) ∧
        s.types.Widens s''.types ∧
        ∀ pair ∈ s''.watch.pairs, pair ∈ s.watch.pairs ∨ pair.1 = call := by
  have hready := h.ready_cleared hgrown [type]
  have hname : ((s.cleared call [type]).call call).name = "coco" := by
    rw [Session.call_cleared h.has, h.name]
  have hresolve := resolve_runs (fuel + 1) hready hforest hname hspans
  refine (recalculate_runs hgrown h hnode hfollower hspans.known hspans.ne_library hsignature
    (Engine.budget_ofFuel (fuel + 1)) hresolve ?_).mono ?_
  · rintro targets s' ⟨henlarges, hdispatches⟩
    have hregular := henlarges.regular hgrown.planted.regular
    refine ⟨henlarges.toRetains, hgrown.planted.widens henlarges.widens hregular, ?_, ?_⟩
    · have hspans' := hspans.widens henlarges.widens hgrown.planted.regular.founded
      obtain ⟨x, hx⟩ := hspans'.exists_concrete hregular.founded
      obtain ⟨id, hid, -⟩ := hdispatches.staffs.staffed x hx
      exact List.ne_nil_of_mem hid
    · intro id hid
      obtain ⟨x, -, henacts⟩ := hdispatches.staffs.served id hid
      exact henacts.has
  · rintro - s'' ⟨targets, s', ⟨henlarges, hdispatches⟩, hbinds, hrecalculates, hgrown', hposes⟩
    have hnodeType := hbinds.typeOf_node
    have hknown := hbinds.known _ hnodeType
    rw [h.call_retained henlarges.toRetains] at hnodeType
    have hsame : s''.instances = s'.instances ∧ s''.watch = s'.watch := by
      obtain ⟨t, g, w, rfl⟩ := hbinds.change
      exact ⟨rfl, rfl⟩
    refine ⟨targets, hrecalculates, hgrown', hposes, ?_, ⟨_, hnodeType, hknown⟩,
      henlarges.widens.trans hbinds.widens, fun pair hpair => ?_⟩
    · exact hdispatches.widened hbinds.widens (henlarges.regular hgrown.planted.regular).founded
        hgrown'.planted.regular.founded (henlarges.grows.known hspans.known) hsame.1 hsame.2
    · rw [hsame.2] at hpair
      exact (henlarges.watches pair hpair).imp_left fun hold =>
        ((SubclassWatch.mem_removeCall _ _ _).1 hold).1

/-- A call of `new` on a class is recalculated, and is worth an object of the class. -/
theorem recalculate_new_runs {c : ClassSource} {metaType : TypeId} (fuel : Nat)
    (hgrown : s.Grown classes taken) (h : s.Poses call "new" metaType none)
    (hnode : (s.call call).node ∈ taken) (hr : s.types.Represents c type)
    (hfind : s.types.find? (.metaclass type) = some metaType)
    (hsignature : (s.call call).signature = none) :
    Runs (recalculateWith (.ofFuel (fuel + 2)) call) s fun _ s'' => ∃ targets,
      s.Recalculates call metaType targets none taken s'' ∧ s''.Grown classes taken ∧
        s''.types.constants = s.types.constants ∧ (∀ pair ∈ s''.watch.pairs, pair ∈ s.watch.pairs) ∧
        s''.typeOf (s.call call).node = some type := by
  have hshape := TypeTable.shape_of_find? hfind
  have hready := h.ready_cleared hgrown [metaType]
  have hname : ((s.cleared call [metaType]).call call).name = "new" := by
    rw [Session.call_cleared h.has, h.name]
  have hresolve := resolve_new_runs (fuel + 1) hready hname hr hfind
  refine (recalculate_runs hgrown h hnode (by simp)
    (TypeTable.known_of_shape_ne (by simp [hshape])) (by simp [hshape]) hsignature
    (Engine.budget_ofFuel (fuel + 1)) hresolve ?_).mono ?_
  · rintro targets s' ⟨hretains, hplanted, -, -, id, rfl, hid, -⟩
    refine ⟨hretains, hplanted, by simp, ?_⟩
    simpa using hid
  · rintro - s'' ⟨targets, s', ⟨hretains, hplanted, hconstants, hwatch, id, rfl, hid, hevaluates⟩,
      hbinds, hrecalculates, hgrown', -⟩
    refine ⟨[id], hrecalculates, hgrown', hbinds.widens.constants_eq.trans hconstants, ?_, ?_⟩
    · intro pair hpair
      have hpair' : pair ∈ s'.watch.pairs := by
        obtain ⟨t, g, w, rfl⟩ := hbinds.change
        exact hpair
      rw [hwatch] at hpair'
      exact ((SubclassWatch.mem_removeCall _ _ _).1 hpair').1
    · have hstocked := hretains.stocked taken hready.taken hready.stocked
      obtain ⟨value, hvalue, htype⟩ := (hstocked.settled id hid).value
      obtain rfl := hvalue.unique hevaluates
      have hresults :
          (joinNew [] (s'.resultNodes [id])).filterMap s'.typeOf = [value] := by
        rw [show joinNew [] (s'.resultNodes [id]) = [(s'.instanceAt id).node] from rfl]
        simp [htype]
      have hnodeType := hbinds.typeOf_node
      rw [h.call_retained hretains, hresults,
        hplanted.regular.unionOf_singleton hplanted.overClasses
          (hvalue.known_type hplanted.regular.founded)] at hnodeType
      exact hnodeType

end Infer

end Callsite
