import Callsite.Proofs.Check.Divergence
import Callsite.Proofs.Forest.Declarations

/-!
# Assignments over a forest

A variable is given objects of classes of a forest, and has the union of the classes then.  What
`coco` returns on it is assigned to another variable, which follows the call.
-/

namespace Callsite

open TypeTable FlowGraph

variable {t : TypeTable} {g : FlowGraph} {scopes : Array Scope} {id : CallId}
  {targets : List InstanceId} {follower : Option NodeId} {inputs : List NodeId} {var : NodeId}
  {creation : Creation}

open Forest

namespace Session

variable {s s' : Session} {classes : List ClassSource} {taken taken' : List NodeId}
  {vars vars' : NameMap NodeId} {call : CallId} {node receiver : NodeId} {type : TypeId}
  {name : String}
  {span : Span}

/-! ## Changes at the top level -/

/-- The top level after a change that leaves the instances and the types of their nodes alone. -/
theorem Hosts.change {calls : Array CallSite} {deepestWave : Nat} (h : s.Hosts classes taken vars)
    (hw : s.types.Widens t) (hregular : t.Regular) (hsize : s.flow.size ≤ g.size)
    (hthawed : ∀ node, (g.get node).frozen = false)
    (htypes : ∀ node, s.HasNode node → node ∉ taken → g.typeOf node = s.typeOf node)
    (htaken : ∀ node ∈ taken', (node ∈ taken ∨ ¬ s.HasNode node) ∧ node.index < g.size)
    (hscopes : s.scopes.size ≤ scopes.size)
    (hroot : scopes[ScopeId.root.index]?.getD default
      = { Scope.top .program .program with vars := vars' }) :
    ({ s with types := t, flow := g, calls, scopes, deepestWave } : Session).Hosts classes
      taken' vars' where
  planted := h.planted.widens hw hregular
  stocked := h.stocked.later hw.grows hsize hthawed rfl (fun _ => rfl) htypes fun node hnode =>
    (htaken node hnode).1
  taken := fun node hnode => (htaken node hnode).2
  agrees := h.agrees
  room := h.room
  hasRoot := h.hasRoot.trans_le hscopes
  root := hroot

theorem Hosts.findVar?_eq (h : s.Hosts classes taken vars) (name : String) :
    s.findVar? .root name = vars.get? name := by
  obtain ⟨depth, hdepth⟩ := Nat.exists_eq_succ_of_ne_zero (Nat.ne_zero_of_lt h.hasRoot)
  have hwithin : s.findVarWithin name (depth + 1) .root = vars.get? name := by
    rw [findVarWithin, h.root]
    cases vars.get? name <;> rfl
  rw [findVar?, hdepth, hwithin]

/-! ## Calls without arguments -/

/-- A new call without arguments on a receiver. -/
def asking (s : Session) (name : String) (receiver : NodeId) (span : Span) : Session :=
  s.withCall (.fresh ⟨s.flow.size⟩ name (some receiver) .root span) span [receiver]

theorem call_asking_self :
    (s.asking name receiver span).call ⟨s.calls.size⟩
      = .fresh ⟨s.flow.size⟩ name (some receiver) .root span :=
  (call_withCall s _ _ _ _).trans (if_pos rfl)

theorem call_asking (h : s.HasCall id) : (s.asking name receiver span).call id = s.call id :=
  (call_withCall s _ _ _ _).trans (if_neg (h.ne))

theorem size_asking : (s.asking name receiver span).flow.size = s.flow.size + 1 := by
  rw [asking, withCall_flow, List.foldl_cons, List.foldl_nil, size_addObserver]
  exact size_push _ _

theorem typeOf_asking (h : s.HasNode node) :
    (s.asking name receiver span).typeOf node = s.typeOf node :=
  congrArg Prod.fst (held_withCall _ span [receiver] h)

theorem get_asking (hne : node ≠ receiver) :
    (s.asking name receiver span).flow.get node = (s.flow.add .union span).2.get node := by
  rw [asking, withCall_flow, List.foldl_cons, List.foldl_nil, addObserver, get_modify_of_ne _ hne]

theorem frozen_asking (h : (s.flow.get node).frozen = false) :
    ((s.asking name receiver span).flow.get node).frozen = false := by
  rw [asking, withCall_flow, List.foldl_cons, List.foldl_nil, frozen_addObserver, add, get_push]
  split
  · rfl
  · exact h

theorem Hosts.asking (h : s.Hosts classes taken vars) (name : String) (receiver : NodeId)
    (span : Span) : (s.asking name receiver span).Hosts classes (⟨s.flow.size⟩ :: taken) vars := by
  have hlt : s.flow.size < (s.asking name receiver span).flow.size := by
    rw [size_asking]
    exact Nat.lt_succ_self _
  refine h.change (g := (s.asking name receiver span).flow) (.refl _) h.planted.regular
    (hlt.le) (fun node => ?_) (fun node hnode _ => typeOf_asking hnode)
    (fun node hnode => ?_) le_rfl h.root
  · exact frozen_asking (h.stocked.thawed node)
  · rcases List.mem_cons.1 hnode with rfl | hold
    · exact ⟨Or.inr (Nat.lt_irrefl _), hlt⟩
    · exact ⟨Or.inl hold, (h.taken node hold).trans hlt⟩

/-- The new call poses its question. -/
theorem poses_asking (h : s.typeOf receiver = some type) :
    (s.asking name receiver span).Poses ⟨s.calls.size⟩ name type none := by
  have hhas := hasNode_of_typeOf h
  have hne := ne_of_lt_size hhas
  have hget : (s.asking name receiver span).flow.get ⟨s.flow.size⟩
      = ⟨none, [], [], .union, false, span⟩ := by
    rw [get_asking hne.symm, add, get_push, if_pos rfl]
  constructor
  case has => exact (hasCall_withCall s _ _ _ _).2 (Or.inr rfl)
  case name => rw [call_asking_self]; rfl
  case bare =>
    rw [call_asking_self]
    exact ⟨rfl, rfl, rfl, rfl, rfl⟩
  case receiver =>
    rw [call_asking_self]
    refine ⟨receiver, rfl, (typeOf_asking hhas).trans h, ?_⟩
    simpa [CallSite.fresh] using hne
  case targets =>
    rw [call_asking_self]
    simp [CallSite.resolved, CallSite.fresh]
  case feeds =>
    rw [call_asking_self]
    refine ⟨?_, by simp, by simp⟩
    constructor
    · show s.flow.size < (s.asking name receiver span).flow.size
      rw [size_asking]
      exact Nat.lt_succ_self _
    all_goals
      rw [show (CallSite.fresh (⟨s.flow.size⟩ : NodeId) name (some receiver) ScopeId.root span).node
        = ⟨s.flow.size⟩ from rfl, hget]
      try rfl

theorem Recalculates.hosts (h : s.Recalculates call type targets follower taken s')
    (hs : s.Hosts classes taken vars) (hgrown : s'.Grown classes taken) :
    s'.Hosts classes taken vars where
  toGrown := hgrown
  hasRoot := hs.hasRoot.trans_le h.scopes_le
  root := (h.scopes .root hs.hasRoot).trans hs.root

/-- The new call is the only one that may be another than a call of `new`. -/
theorem Recalculates.news_asking
    (h : (s.asking name receiver span).Recalculates ⟨s.calls.size⟩ type targets follower taken s')
    (hs : s.Prepared classes taken' vars) (hid : s'.HasCall id) (hne : id ≠ ⟨s.calls.size⟩) :
    (s'.call id).name = "new" ∧ (s'.call id).args = [] := by
  rw [h.others id hne]
  rw [HasCall, h.calls_size] at hid
  rcases (hasCall_withCall s id _ _ _).1 hid with hold | hlast
  · rw [call_asking hold]
    exact hs.news id hold
  · exact absurd (congrArg CallId.mk hlast) hne

theorem Prepared.change {w : Nat} (h : s.Prepared classes taken vars)
    (hs : ({ s with types := t, flow := g, scopes, deepestWave := w } : Session).Hosts classes
      taken' vars') :
    ({ s with types := t, flow := g, scopes, deepestWave := w } : Session).Prepared classes
      taken' vars' :=
  ⟨hs, h.unwatched, h.news⟩

/-! ## Variables -/

def declaring (s : Session) (name : String) (span : Span) : Session :=
  (s.withFlow (s.flow.add .union span).2).withVar .root name ⟨s.flow.size⟩

theorem Hosts.declaring (h : s.Hosts classes taken vars) (name : String) (span : Span) :
    (s.declaring name span).Hosts classes (⟨s.flow.size⟩ :: taken)
      (vars.insert name ⟨s.flow.size⟩) := by
  have hsize : (s.flow.add .union span).2.size = s.flow.size + 1 := size_push _ _
  have hroot : (s.declaring name span).scope .root
      = { Scope.top .program .program with vars := vars.insert name ⟨s.flow.size⟩ } := by
    refine (scope_withVar _ _ _ _ _).trans ((if_pos ⟨rfl, h.hasRoot⟩).trans ?_)
    rw [show (s.withFlow (s.flow.add .union span).2).scope .root = s.scope .root from rfl, h.root]
  refine h.change (g := (s.flow.add .union span).2) (.refl _) h.planted.regular (by omega)
    (fun node => ?_) (fun node hnode _ => ?_) (fun node hnode => ?_)
    (Array.size_modify.symm.le) hroot
  · rw [add, get_push]
    split
    · rfl
    · exact h.stocked.thawed node
  · exact typeOf_push_of_lt _ _ _ hnode
  · rw [hsize]
    rcases List.mem_cons.1 hnode with rfl | hold
    · exact ⟨Or.inr (Nat.lt_irrefl _), Nat.lt_succ_self _⟩
    · exact ⟨Or.inl hold, Nat.lt_succ_of_lt (h.taken node hold)⟩

/-- A variable that nobody has read yet, and that was given objects of classes of a forest. -/
structure Gathers (s : Session) (classes : List ClassSource) (var : NodeId) (inputs : List NodeId) :
    Prop where
  wired : s.flow.Wired var inputs [] .union
  apart : var ∉ inputs
  objects : ∀ input ∈ inputs, ∃ type, s.typeOf input = some type ∧
    ∃ c ∈ classes, s.types.Represents c type

/-- A session in which a variable was given objects of classes of a forest. -/
structure Assigned (s : Session) (classes : List ClassSource) (nodes : List NodeId) (var : NodeId)
    (type : TypeId) : Prop extends s.Prepared classes nodes (NameMap.empty.insert "a" var) where
  mem : var ∈ nodes
  gathers : ∃ inputs, s.Gathers classes var inputs
  typed : s.typeOf var = some type
  spans : s.types.Spans classes type

/-- What is computed next leaves the nodes that are there alone, and the forest. -/
structure Spares (s : Session) (classes : List ClassSource) (taken : List NodeId) (s' : Session) :
    Prop where
  size_le : s.flow.size ≤ s'.flow.size
  typeOf_eq : ∀ node, s.HasNode node → s'.typeOf node = s.typeOf node
  get_eq : ∀ node ∈ taken, s'.flow.get node = s.flow.get node
  represents : ∀ c ∈ classes, ∀ type, s.types.Represents c type → s'.types.Represents c type

theorem Spares.trans {s'' : Session} (h : s.Spares classes taken s')
    (h' : s'.Spares classes taken s'') : s.Spares classes taken s'' where
  size_le := h.size_le.trans h'.size_le
  typeOf_eq := fun node hnode =>
    (h'.typeOf_eq node (hnode.trans_le h.size_le)).trans (h.typeOf_eq node hnode)
  get_eq := fun node hnode => (h'.get_eq node hnode).trans (h.get_eq node hnode)
  represents := fun c hc type hr => h'.represents c hc type (h.represents c hc type hr)

/-- A new call on a receiver of its own touches no other node. -/
theorem Recalculates.spares {targets : List InstanceId}
    (h : (s.asking name receiver span).Recalculates ⟨s.calls.size⟩ type targets none
      (⟨s.flow.size⟩ :: taken) s')
    (htaken : ∀ node ∈ taken, s.HasNode node)
    (hreceiver : receiver ∉ taken)
    (hrepresents : ∀ c ∈ classes, ∀ type, s.types.Represents c type → s'.types.Represents c type) :
    s.Spares classes taken s' := by
  have hout : ∀ node, s.HasNode node →
      node ∉ ((s.asking name receiver span).call ⟨s.calls.size⟩).node
        :: (none : Option NodeId).toList := by
    intro node hnode
    rw [call_asking_self, Option.toList_none, List.mem_singleton]
    rintro rfl
    exact Nat.lt_irrefl _ hnode
  constructor
  case size_le =>
    refine Nat.le_trans ?_ h.size_le
    rw [size_asking]
    exact Nat.le_succ _
  case typeOf_eq =>
    intro node hnode
    have hhas : (s.asking name receiver span).HasNode node := by
      rw [HasNode, size_asking]
      exact Nat.lt_succ_of_lt hnode
    rw [h.typeOf_eq node hhas (hout node hnode), typeOf_asking hnode]
  case get_eq =>
    intro node hnode
    have hne : node ≠ receiver := fun heq => hreceiver (heq ▸ hnode)
    rw [h.get_eq node (List.mem_cons_of_mem _ hnode) (hout node (htaken node hnode)),
      get_asking hne, add, get_push, if_neg ((htaken node hnode).ne)]
  case represents => exact hrepresents

theorem Gathers.spared (h : s.Gathers classes node inputs) (hspares : s.Spares classes taken s')
    (hnode : node ∈ taken) : s'.Gathers classes node inputs where
  wired := h.wired.of_get_eq hspares.size_le (hspares.get_eq node hnode)
  apart := h.apart
  objects := by
    intro input hinput
    obtain ⟨type, htype, c, hc, hr⟩ := h.objects input hinput
    exact ⟨type, (hspares.typeOf_eq input (hasNode_of_typeOf htype)).trans htype, c, hc,
      hspares.represents c hc type hr⟩

end Session

/-! ## Objects of classes -/

namespace Infer

open Session

variable {s : Session} {classes : List ClassSource} {taken : List NodeId} {vars : NameMap NodeId}
  {c : ClassSource} {type metaType : TypeId} {name : String} (fuel : Nat)

/-- A call without arguments is looked at: first the receiver, and then it is calculated. -/
theorem visitCall_runs
    {engine : Engine} {receiver : Expr} {node : NodeId} {s1 : Session} {P : Session → Prop}
    (hvisit : Returns (engine.visit .root receiver) s node s1) (span : Span)
    (h : Runs (engine.recalculate ⟨s1.calls.size⟩) (s1.asking name node span) fun _ => P) :
    Runs (visitCall engine .root (.plain (some receiver) name []) span) s fun result s' =>
      result = ⟨s1.flow.size⟩ ∧ P s' := by
  have hreceiver : Returns ((some receiver).mapM (engine.visit .root)) s (some node) s1 :=
    hvisit.bind (.pure _ _)
  have hsuper : isBareSuper (.plain (some receiver) name []) = false := by
    simp [isBareSuper, Call.plain]
  refine hreceiver.runs_bind ?_
  simp only [hsuper, Bool.false_eq_true, if_false]
  exact h.bind fun _ s' hp => Returns.runs (.pure _ s') ⟨rfl, hp⟩

/-- The name of a class of the forest is worth its metaclass. -/
theorem visit_path_returns (h : s.Hosts classes taken vars) (hr : s.types.Represents c type)
    (hfind : s.types.find? (.metaclass type) = some metaType) (engine : Engine) (span : Span) :
    Returns (visitWith engine .root ⟨.path (.named c.name), span⟩) s ⟨s.flow.size⟩
      (s.withFlow (s.flow.addTyped metaType span).2) := by
  obtain ⟨info, hshape, -⟩ := hr.shape
  have hmeta : Returns (build (metaclass type)) s metaType s := by
    rw [Returns, build, metaclass_of_cls hshape, intern_of_find? hfind]
  have hdenote := denoteIn_root h span hr.constant
  exact hdenote.bind (hmeta.bind rfl)

/-- A new object of a class of the forest. -/
theorem visit_new_runs (h : s.Prepared classes taken vars) (hc : c ∈ classes)
    (pathSpan span : Span) :
    Runs (visitWith (.ofFuel (fuel + 3)) .root
      ⟨.call (.plain (some ⟨.path (.named c.name), pathSpan⟩) "new" []), span⟩) s fun node s' =>
        s'.Prepared classes (node :: taken) vars ∧ s.Spares classes taken s' ∧ ¬ s.HasNode node ∧
          ∃ type, s'.typeOf node = some type ∧ s'.types.Represents c type := by
  obtain ⟨type, hr⟩ := h.planted.represents c hc
  obtain ⟨metaType, hfind⟩ := hr.metaclass
  have hpath := visit_path_returns h.toHosts hr hfind (.ofFuel (fuel + 1)) pathSpan
  let s1 : Session := s.withFlow (s.flow.addTyped metaType pathSpan).2
  let s2 : Session := s1.asking "new" ⟨s.flow.size⟩ span
  have hretains : s.Retains default s1 := .noded s _ rfl
  have h1 : s1.Prepared classes taken vars := hretains.prepared h h.planted rfl
  have h2 : s2.Hosts classes (⟨s1.flow.size⟩ :: taken) vars := h1.toHosts.asking _ _ _
  have hreceiver : s1.typeOf ⟨s.flow.size⟩ = some metaType := typeOf_addTyped_self _ _ _
  have hposes : s2.Poses ⟨s1.calls.size⟩ "new" metaType none := poses_asking hreceiver
  have hsite : s2.call ⟨s1.calls.size⟩
      = .fresh ⟨s1.flow.size⟩ "new" (some ⟨s.flow.size⟩) .root span := call_asking_self
  have hrecalculate := recalculate_new_runs fuel h2.toGrown hposes
    (by rw [hsite]; exact List.mem_cons_self) hr hfind (by rw [hsite]; rfl)
  refine (visitCall_runs hpath span hrecalculate).mono ?_
  rintro node s3 ⟨rfl, targets, hrecalculates, hgrown, hconstants, hwatch, htype⟩
  rw [hsite] at htype
  have hconstant : ∀ name, s3.types.constant? name = s.types.constant? name := by
    intro name
    rw [constant?, hconstants, constant?]
    rfl
  have hrepresents : ∀ c ∈ classes, ∀ type, s.types.Represents c type →
      s3.types.Represents c type := by
    intro c hc type hr
    exact hgrown.planted.represents_of_constant hc ((hconstant c.name).trans hr.constant)
  have hspares1 : s.Spares classes taken s1 :=
    ⟨hretains.size_le, fun _ hnode => hretains.typeOf_eq hnode,
      fun node hnode => hretains.nodes node (h.taken node hnode), fun _ _ _ hr => hr⟩
  have hspares : s1.Spares classes taken s3 :=
    hrecalculates.spares h1.taken (fun hmem => Nat.lt_irrefl _ (h.taken _ hmem)) hrepresents
  have hnew : ¬ s.HasNode ⟨s1.flow.size⟩ := Nat.not_lt.2 hretains.size_le
  refine ⟨⟨hrecalculates.hosts h2 hgrown, ?_, fun id hid => ?_⟩, hspares1.trans hspares, hnew, type,
    htype, hrepresents c hc type hr⟩
  · refine Set.eq_empty_iff_forall_notMem.2 fun pair hpair => ?_
    have hold : pair ∈ s1.watch.pairs := hwatch pair hpair
    rw [h1.unwatched] at hold
    exact hold
  · by_cases heq : id = ⟨s1.calls.size⟩
    · rw [heq, hrecalculates.site, hsite]
      exact ⟨rfl, rfl⟩
    · exact hrecalculates.news_asking h1 hid heq

/-- A variable is given one more object. -/
theorem connect_object_runs {value : NodeId}
    (h : s.Prepared classes taken (NameMap.empty.insert "a" var)) (hforest : IsForest classes)
    (hvar : var ∈ taken) (hgathers : s.Gathers classes var inputs) (hne : var ≠ value)
    (hc : c ∈ classes) (hr : s.types.Represents c type) (hvalue : s.typeOf value = some type) :
    Runs (connect (.ofFuel (fuel + 2)) var [value]) s fun _ s' =>
      ∃ union, s'.Assigned classes taken var union := by
  have hmem : ∀ input,
      input ∈ joinNew inputs [value] ↔ input ∈ inputs ∨ input = value := by
    intro input
    rw [mem_joinNew, List.mem_singleton]
  have hobjects : ∀ input ∈ joinNew inputs [value], ∃ type, s.typeOf input = some type ∧
      ∃ c ∈ classes, s.types.Represents c type := by
    intro input hinput
    rcases (hmem input).1 hinput with hold | rfl
    · exact hgathers.objects input hold
    · exact ⟨type, hvalue, c, hc, hr⟩
  have hrepresented : ∀ x ∈ (joinNew inputs [value]).filterMap s.typeOf,
      ∃ c ∈ classes, s.types.Represents c x := by
    intro x hx
    obtain ⟨input, hinput, htypeOf⟩ := List.mem_filterMap.1 hx
    obtain ⟨x', htypeOf', hx'⟩ := hobjects input hinput
    rwa [Option.some.inj (htypeOf.symm.trans htypeOf')]
  have hknown : ∀ x ∈ (joinNew inputs [value]).filterMap s.typeOf, s.types.Known x := by
    intro x hx
    obtain ⟨c, -, hr⟩ := hrepresented x hx
    exact hr.known
  have hne' : (joinNew inputs [value]).filterMap s.typeOf ≠ [] :=
    List.ne_nil_of_mem (List.mem_filterMap.2 ⟨value, (hmem value).2 (Or.inr rfl), hvalue⟩)
  have hapart : var ∉ joinNew inputs [value] := by
    intro hself
    exact ((hmem var).1 hself).elim hgathers.apart hne
  have hregular := h.planted.regular.unionOf hknown
  have hfed : s.flow.Feeds var inputs none := ⟨hgathers.wired, by simp, by simp⟩
  obtain ⟨t, g, w, hrun, hwidens, hregular', hfeeds, htypeOf, hrewires⟩ := connect_feeds
    (Engine.budget_ofFuel (fuel + 1)) hfed (by simpa using hne) (by simp) rfl hne' hknown
    h.planted.regular h.planted.overClasses h.room
  have hwidens' := (unionOf_widens _ s.types).trans hwidens
  have hhosts : ({ s with types := t, flow := g, deepestWave := w } : Session).Hosts classes taken
      (NameMap.empty.insert "a" var) := by
    refine h.toHosts.change hwidens' hregular' (hrewires.size_eq.symm.le) (fun node => ?_)
      (fun node _ hout => hrewires.typeOf_eq node ?_) (fun node hnode => ⟨Or.inl hnode, ?_⟩)
      le_rfl h.root
    · rw [hrewires.frozen_eq, h.stocked.thawed]
    · rw [Option.toList_none, List.mem_singleton]
      rintro rfl
      exact hout hvar
    · rw [hrewires.size_eq]
      exact h.taken node hnode
  refine hrun.runs ⟨_, h.change hhosts, hvar, ⟨_, hfeeds.wired, hapart, ?_⟩, htypeOf, ?_⟩
  · intro input hinput
    obtain ⟨x, htypeOf, c, hc, hr⟩ := hobjects input hinput
    refine ⟨x, (hrewires.typeOf_eq input ?_).trans htypeOf, c, hc,
      hr.widens hwidens' h.planted.regular.founded⟩
    rw [Option.toList_none, List.mem_singleton]
    rintro rfl
    exact hapart hinput
  · have hspans := h.planted.spans_unionOf hforest hne' hrepresented
    exact hspans.widens hwidens hregular.founded

theorem declareVar_new_returns (h : s.Hosts classes taken vars) (hnone : vars.get? name = none)
    (span : Span) :
    Returns (declareVar .root name span) s ⟨s.flow.size⟩ (s.declaring name span) := by
  refine .get_bind ?_
  rw [h.findVar?_eq, hnone]
  exact rfl

theorem declareVar_old_returns (h : s.Hosts classes taken vars)
    (hsome : vars.get? name = some var) (span : Span) :
    Returns (declareVar .root name span) s var s := by
  refine .get_bind ?_
  rw [h.findVar?_eq, hsome]
  exact .pure _ _

/-- The first object is given to the variable. -/
theorem visit_creation_first_runs (h : s.Prepared classes taken .empty)
    (hforest : IsForest classes) (hcreation : creation.cls ∈ classes.map ClassSource.name) :
    Runs (visitWith (.ofFuel (fuel + 4)) .root creation.expr) s fun _ s' =>
      ∃ nodes var type, s'.Assigned classes nodes var type := by
  obtain ⟨c, hc, hname⟩ := List.mem_map.1 hcreation
  have hvalue := visit_new_runs fuel h hc creation.pathSpan creation.callSpan
  rw [hname] at hvalue
  refine hvalue.bind ?_
  rintro node s1 ⟨h1, -, -, type, htype, hr⟩
  have hlt : node.index < s1.flow.size := hasNode_of_typeOf htype
  have hgathers : (s1.declaring "a" creation.span).Gathers classes ⟨s1.flow.size⟩ [] :=
    ⟨s1.flow.wired_push ⟨rfl, rfl⟩ rfl, List.not_mem_nil, by simp⟩
  have htype' : (s1.declaring "a" creation.span).typeOf node = some type :=
    (typeOf_push_of_lt s1.flow _ _ hlt).trans htype
  have hconnect := connect_object_runs (fuel + 2) (h1.change (h1.toHosts.declaring _ _))
    hforest List.mem_cons_self hgathers (ne_of_lt_size hlt).symm hc hr htype'
  refine (declareVar_new_returns h1.toHosts rfl creation.span).runs_bind (hconnect.bind ?_)
  rintro - s2 ⟨union, h2⟩
  exact Returns.runs (.pure _ _) ⟨_, _, union, h2⟩

/-- One more object is given to the variable. -/
theorem visit_creation_next_runs (h : s.Assigned classes taken var type)
    (hforest : IsForest classes) (hcreation : creation.cls ∈ classes.map ClassSource.name) :
    Runs (visitWith (.ofFuel (fuel + 4)) .root creation.expr) s fun _ s' =>
      ∃ nodes var type, s'.Assigned classes nodes var type := by
  obtain ⟨c, hc, hname⟩ := List.mem_map.1 hcreation
  obtain ⟨inputs, hgathers⟩ := h.gathers
  have hvalue := visit_new_runs fuel h.toPrepared hc creation.pathSpan creation.callSpan
  rw [hname] at hvalue
  refine hvalue.bind ?_
  rintro node s1 ⟨h1, hspares, hnew, type', htype, hr⟩
  have hne : var ≠ node := by
    rintro rfl
    exact hnew (h.taken var h.mem)
  have hconnect := connect_object_runs (fuel + 2) h1 hforest (List.mem_cons_of_mem _ h.mem)
    (hgathers.spared hspares h.mem) hne hc hr htype
  have hdeclare := declareVar_old_returns h1.toHosts (NameMap.get?_insert_self _ _ _) creation.span
  refine hdeclare.runs_bind (hconnect.bind ?_)
  rintro - s2 ⟨union, h2⟩
  exact Returns.runs (.pure _ _) ⟨_, _, union, h2⟩

/-- Objects are given to the variable one after the other. -/
theorem visit_creations_runs {creations : List Creation} (h : s.Prepared classes taken .empty)
    (hforest : IsForest classes) (hne : creations ≠ [])
    (hcreations : ∀ creation ∈ creations, creation.cls ∈ classes.map ClassSource.name) :
    Runs ((creations.map Creation.expr).mapM (visitWith (.ofFuel (fuel + 4)) .root)) s fun _ s' =>
      ∃ nodes var type, s'.Assigned classes nodes var type := by
  have hnext : ∀ (rest : List Creation) {s : Session},
      (∀ creation ∈ rest, creation.cls ∈ classes.map ClassSource.name) →
      (∃ nodes var type, s.Assigned classes nodes var type) →
      Runs ((rest.map Creation.expr).mapM (visitWith (.ofFuel (fuel + 4)) .root)) s fun _ s' =>
        ∃ nodes var type, s'.Assigned classes nodes var type := by
    intro rest
    induction rest with
    | nil => exact fun _ hs => Returns.runs (.pure _ _) hs
    | cons creation rest ih =>
      rintro s hrest ⟨nodes, var, type, hs⟩
      rw [List.map_cons, List.mapM_cons]
      refine (visit_creation_next_runs _ hs hforest (hrest creation List.mem_cons_self)).bind ?_
      intro _ s' hs'
      refine (ih (List.forall_mem_cons.1 hrest).2 hs').bind ?_
      exact fun _ s'' hs'' => Returns.runs (.pure _ _) hs''
  obtain ⟨creation, rest, rfl⟩ := List.exists_cons_of_ne_nil hne
  rw [List.map_cons, List.mapM_cons]
  refine (visit_creation_first_runs _ h hforest (hcreations creation List.mem_cons_self)).bind ?_
  intro _ s' hs'
  have hrest : ∀ other ∈ rest, _ := (List.forall_mem_cons.1 hcreations).2
  refine (hnext rest hrest hs').bind ?_
  exact fun _ s'' hs'' => Returns.runs (.pure _ _) hs''

end Infer

end Callsite
