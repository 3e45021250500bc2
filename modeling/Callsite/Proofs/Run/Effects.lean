import Callsite.Proofs.Run.Sound

/-!
# Effects of a move

What a move does to one node or to one call.  Of the nodes that are there, only those that derive
their type and those of calls with a dead argument change it, and the observers are told.  A call
changes its targets only when it is resolved, and its node then has to look at them.
-/

namespace Callsite

open FlowGraph Session

variable {s s' : Session} {A A' : Agenda} {O : Set CallId} {node : NodeId} {call changed : CallId}
  {f : CallSite → CallSite} {type : TypeId}

/-! ## Types of nodes -/

namespace Session

theorem held_reopened (call : CallId) (signature : List TypeId) (node : NodeId) :
    (s.reopened call signature).flow.held node = s.flow.held node :=
  (foldl_field _ _ (held · node) fun _ _ => by simp [held]).trans
    (foldl_field _ _ (held · node) fun _ _ => by simp [held])

theorem held_resolvedTo (call : CallId) (targets : List InstanceId) (node : NodeId) :
    (s.resolvedTo call targets).flow.held node = s.flow.held node :=
  foldl_field _ _ (held · node) fun _ _ => by simp [held]

theorem held_detached (call : CallId) (node : NodeId) :
    (s.detached call).flow.held node = s.flow.held node :=
  foldl_field _ _ (held · node) fun _ _ => by simp [held]

theorem held_withCall (site : CallSite) (span : Span) (observed : List NodeId)
    (h : s.HasNode node) : (s.withCall site span observed).flow.held node = s.flow.held node :=
  (foldl_field _ _ (held · node) fun _ _ => by simp [held]).trans (held_push_of_lt _ _ _ h)

end Session

/-- All observers of a list are on an agenda. -/
structure Agenda.Lists (A : Agenda) (observers : List Observer) : Prop where
  nodes : ∀ node, .node node ∈ observers → node ∈ A.nodes
  calls : ∀ call, .call call ∈ observers → call ∈ A.calls

theorem Agenda.withObservers_lists (A : Agenda) (observers : List Observer) :
    (A.withObservers observers).Lists observers :=
  ⟨fun _ h => Or.inr h, fun _ h => Or.inr h⟩

/-- What a move does to a node that is there.  A node that gets a type has joined its inputs, or it
is that of a call that is given up for a dead argument. -/
inductive NodeStep (O : Set CallId) (s : Session) (A : Agenda) (s' : Session) (A' : Agenda)
    (node : NodeId) : Prop
  | kept (htype : s'.typeOf node = s.typeOf node)
      (hlisted : node ∈ A.nodes → node ∈ A'.nodes ∨ s'.IsJoined node)
      (hfrozen : (s.flow.get node).frozen = true → (s'.flow.get node).frozen = true ∨
        ∃ opened ∈ O, (s.call opened).targets = none ∧ s.body? opened = some node)
  | set {type : TypeId} (htype : s'.typeOf node = some type)
      (hlists : A'.Lists (s.flow.get node).observers)
      (hfrozen : (s'.flow.get node).frozen = (s.flow.get node).frozen)
      (hsame : (s.flow.get node).frozen = true → s.typeOf node = none ∨ s.typeOf node = some type)
      (hcause : s'.IsJoined node ∨ type = .noReturn ∧
        ∃ call, s.HasCall call ∧ (s.call call).node = node ∧ s.HasDeadArg call)

theorem NodeStep.of_held (h : s'.flow.held node = s.flow.held node)
    (hlisted : node ∈ A.nodes → node ∈ A'.nodes) : NodeStep O s A s' A' node :=
  .kept (congrArg Prod.fst h) (fun hmem => Or.inl (hlisted hmem))
    fun hfrozen => Or.inl ((congrArg Prod.snd h).trans hfrozen)

/-- Every move does one of these things to a node. -/
theorem Move.nodeStep (h : Move O (s, A) (s', A')) (hs : s.Sound) (hnode : s.HasNode node) :
    NodeStep O s A s' A' node := by
  cases h with
  | wait h => exact .of_held rfl fun hmem => h.nodes hmem
  | node fresh => exact .of_held (held_push_of_lt _ _ fresh hnode) id
  | freeze =>
    refine .kept (typeOf_setFrozen _ _ _ _) Or.inl fun hfrozen => Or.inl ?_
    refine (frozen_setFrozen _ _ _ _).trans ?_
    split
    · rfl
    · exact hfrozen
  | @thaw _ _ opened thawed hopen htargets hbody =>
    refine .kept (typeOf_setFrozen _ _ _ _) Or.inl fun hfrozen => ?_
    by_cases heq : thawed = node
    · exact Or.inr ⟨opened, hopen, htargets, heq ▸ hbody⟩
    · refine Or.inl ((frozen_setFrozen _ _ _ _).trans ?_)
      rwa [if_neg fun hall => heq hall.1]
  | link => exact .of_held (by simp [held]) Or.inr
  | @joined _ _ joined h =>
    refine .kept rfl (fun hmem => ?_) Or.inl
    by_cases heq : node = joined
    · exact Or.inr (heq ▸ h)
    · exact Or.inl ⟨hmem, heq⟩
  | @assign _ _ assigned type h _ hsame =>
    by_cases heq : node = assigned
    · subst heq
      refine .set (typeOf_setType_self hnode _) (Agenda.withObservers_lists _ _)
        (frozen_setType _ _ _ _) hsame (Or.inl fun hrule hinputs => ?_)
      -- A node is no input of its own, so that the types of its inputs are what they were.
      have hinputTypes : (s.flow.setType node (some type)).inputTypes node
          = s.flow.inputTypes node := by
        rw [inputTypes, inputTypes, inputs_setType]
        refine List.filterMap_congr fun input hinput => ?_
        exact typeOf_setType_of_ne (hs.mirrored.linked node input hinput).2.1.symm _
      have hjoins := h (by simpa using hrule) (by rw [← hinputTypes]; exact hinputs)
      refine ⟨type, ⟨?_, ?_⟩, typeOf_setType_self hnode _⟩
      · exact fun input hinput => hjoins.known input (hinputTypes ▸ hinput)
      · exact (congrArg (TypeTable.unionOf · s.types) hinputTypes).trans hjoins.union
    · exact .of_held (by simp [held, typeOf_setType_of_ne (Ne.symm heq)])
        fun hmem => Or.inl ⟨hmem, heq⟩
  | @kill _ _ killed hcall hdead hsame =>
    by_cases heq : (s.call killed).node = node
    · subst heq
      exact .set (typeOf_setType_self hnode _) (Agenda.withObservers_lists _ _)
        (frozen_setType _ _ _ _) hsame (Or.inr ⟨rfl, killed, hcall, rfl, hdead⟩)
    · exact .of_held (by simp [held, typeOf_setType_of_ne heq]) Or.inl
  | call site span observed => exact .of_held (held_withCall site span observed hnode) id
  | reopen => exact .of_held (held_reopened _ _ _) id
  | resolve => exact .of_held (held_resolvedTo _ _ _) Or.inr
  | convert => exact .of_held (by simp [held, converted]) id
  | resolveForeign =>
    exact .of_held ((held_resolvedTo _ _ _).trans (held_detached _ _)) Or.inr
  | _ => exact .of_held rfl id

/-- A node that changes its type has its observers put on the agenda. -/
theorem Move.typeOf_or_lists (h : Move O (s, A) (s', A')) (hs : s.Sound) (hnode : s.HasNode node) :
    s'.typeOf node = s.typeOf node ∨ A'.Lists (s.flow.get node).observers := by
  cases h.nodeStep hs hnode with
  | kept htype => exact Or.inl htype
  | set _ hlists => exact Or.inr hlists

/-! ## Calls -/

namespace Session

theorem inputTypes?_reopened (hcall : s.HasCall call) (signature : List TypeId) :
    (s.reopened call signature).inputTypes? call = s.inputTypes? call := by
  refine inputTypes?_congr ?_ fun input _ => congrArg Prod.fst (held_reopened call signature input)
  rw [s.call_reopened hcall]
  rfl

end Session

/-- What a move makes of the record of a call. -/
inductive SiteStep (O : Set CallId) (s : Session) (A A' : Agenda) (call : CallId) :
    CallSite → Prop
  | kept : SiteStep O s A A' call (s.call call)
  | made {site : CallSite} (hnew : ¬ s.HasCall call) (htargets : site.targets = none)
      (hsignature : site.signature = none) (hconversions : site.conversions = [])
      (hfree : ∀ input ∈ site.inputs, .node input ∉ A.locks)
      (hpending : ∀ block, site.block = some block → block.visit = .pending) :
      SiteStep O s A A' call site
  | block {block : BlockSite} (hopen : call ∈ O) (htargets : (s.call call).targets = none)
      (hblockArg : (s.call call).blockArg ≠ none) (hpending : block.visit = .pending) :
      SiteStep O s A A' call { s.call call with block := some block }
  | begin (hpending : (s.call call).block.map (·.visit) = some .pending) :
      SiteStep O s A A' call ((s.call call).visited .started)
  | finish {node : NodeId} (hfree : .node node ∉ A.locks)
      (hstarted : (s.call call).blockArg = none →
        (s.call call).block.map (·.visit) = some .started) (hdropped : .visit call ∉ A'.locks) :
      SiteStep O s A A' call ((s.call call).visited (.finished node))
  | edges (paramEdges blockEdges : List (NodeId × NodeId)) :
      SiteStep O s A A' call { s.call call with paramEdges, blockEdges }
  | defer : SiteStep O s A A' call { s.call call with deferred := true }
  | reopened (hopen : call ∈ O) (hreopened : call ∈ A'.reopened) (signature : List TypeId) :
      SiteStep O s A A' call ((s.call call).opened signature)
  | resolved {targets : List InstanceId} (hfree : ∀ id ∈ targets, .inst id ∉ A.locks) :
      SiteStep O s A A' call { s.call call with targets := some targets }
  | converted {source node : NodeId} (index : Nat) (kind : ConversionKind) (hopen : call ∈ O)
      (hconverting : call ∈ A'.converting) (hfree : .node node ∉ A.locks)
      (hsources : ∀ i, .source call i node ∉ A.locks) (hsource : .node source ∉ A.locks)
      (hnode : s.HasNode node)
      (hfixed : kind ≠ .stringToPointer →
        ((s.call call).args.map (·.isOut))[index]? = some false ∧
          ∃ type, (s.flow.get node).rule = .pinned type ∧ s.types.Yields kind type) :
      SiteStep O s A A' call ((s.call call).converted index kind source node)
  | signed (hopen : call ∈ O) (hconverting : call ∈ A'.converting)
      (signature : Option (List TypeId)) :
      SiteStep O s A A' call { s.call call with signature }
  | forgotten (hlisted : call ∈ A'.calls) :
      SiteStep O s A A' call { s.call call with signature := none }

theorem SiteStep.changeCall (h : SiteStep O s A A' changed (f (s.call changed))) :
    SiteStep O s A A' call ((s.changeCall changed f).call call) := by
  rw [call_changeCall]
  split
  next hall =>
    obtain ⟨rfl, -⟩ := hall
    exact h
  next => exact .kept

/-- Every move makes one of these of the record of a call. -/
theorem Move.site (h : Move O (s, A) (s', A')) (call : CallId) :
    SiteStep O s A A' call (s'.call call) := by
  cases h with
  | call site span observed h =>
    rw [call_withCall]
    split
    next hnew =>
      exact .made (fun hold => hold.ne hnew) h.targets h.signature h.conversions h.free
        fun block hblock => (h.block block hblock).2
    next => exact .kept
  | block block _ hopen htargets hblockArg hpending =>
    exact .changeCall (.block hopen htargets hblockArg hpending)
  | begin hpending => exact .changeCall (.begin hpending)
  | finish _ _ hfree hstarted => exact .changeCall (.finish hfree hstarted fun hmem => hmem.2 rfl)
  | paramEdge | blockEdge => exact .changeCall (.edges _ _)
  | defer => exact .changeCall .defer
  | reopen hopen => exact .changeCall (.reopened hopen (Set.mem_insert _ _) _)
  | resolve _ _ _ _ _ _ hfree => exact .changeCall (.resolved hfree)
  | convert index kind hopen _ _ hnode _ hconverting _ hfree hsources hsource _ _ hfixed =>
    exact .changeCall
      (.converted index kind hopen hconverting hfree (hsources _) hsource hnode hfixed)
  | sign hopen hconverting => exact .changeCall (.signed hopen hconverting _)
  | resolveForeign _ _ _ _ hfree =>
    exact .changeCall (.resolved fun id hmem => List.mem_singleton.1 hmem ▸ hfree)
  | forget => exact .changeCall (.forgotten (Or.inl rfl))
  | _ => exact .kept

/-- A call stays deferred unless it is being resolved again. -/
theorem Move.deferred (h : Move O (s, A) (s', A')) (hcall : s.HasCall call)
    (hkept : call ∈ O → (s'.call call).targets ≠ none)
    (hdeferred : (s.call call).deferred = true) : (s'.call call).deferred = true := by
  have hsite := h.site call
  generalize s'.call call = site at hsite hkept ⊢
  cases hsite with
  | made hnew => exact absurd hcall hnew
  | defer => rfl
  | reopened hopen => exact absurd rfl (hkept hopen)
  | _ => exact hdeferred

/-- A call that is being resolved again goes on to be so until it has targets. -/
theorem Move.reopened_or_resolved (h : Move O (s, A) (s', A')) (hmem : call ∈ A.reopened) :
    call ∈ A'.reopened ∨ (s'.call call).targets ≠ none := by
  cases h with
  | wait h => exact Or.inl (h.reopened hmem)
  | reopen => exact Or.inl (Or.inr hmem)
  | @close _ _ closed htargets =>
    by_cases heq : call = closed
    · exact Or.inr (heq ▸ htargets)
    · exact Or.inl ⟨hmem, heq⟩
  | _ => exact Or.inl hmem

namespace Session

/-- A call of a foreign function has it as its one target. -/
theorem callsForeign_resolvedTo {target : InstanceId} (hcall : s.HasCall call)
    (hsigned : (s.call call).signature = s.inputTypes? call)
    (htakes : (∀ conversion ∈ (s.call call).conversions, conversion.kind ≠ .stringToPointer) →
      ∃ signature, (s.call call).signature = some signature ∧ s.Takes call signature target) :
    ((s.detached call).resolvedTo call [target]).CallsForeign call target := by
  have hsite : ((s.detached call).resolvedTo call [target]).call call
      = { s.call call with targets := some [target] } := s.call_changeCall_self _ hcall
  have htypes : ((s.detached call).resolvedTo call [target]).inputTypes? call
      = s.inputTypes? call := by
    refine inputTypes?_congr (by rw [hsite]; rfl) fun input _ => ?_
    exact congrArg Prod.fst ((held_resolvedTo _ _ _).trans (held_detached _ _))
  refine ⟨by rw [hsite], by rw [hsite, htypes, hsigned], ?_⟩
  rw [hsite]
  intro hplain
  obtain ⟨signature, hsignature, htaken⟩ := htakes hplain
  refine ⟨signature, hsignature, htaken.has, htaken.known, fun i param hparam => ?_⟩
  rw [hsite]
  exact htaken.params i param hparam

end Session

/-- The arguments of a call are being converted until it has a foreign function as its target. -/
theorem Move.converting_or_foreign (h : Move O (s, A) (s', A')) (hmem : call ∈ A.converting) :
    call ∈ A'.converting ∨ s.FitsForeign call ∧ ∃ target, s'.CallsForeign call target := by
  cases h with
  | wait h => exact Or.inl (h.converting hmem)
  | @resolveForeign _ _ opened target hcall _ hfits hsigned _ _ htakes =>
    by_cases heq : call = opened
    · subst heq
      exact Or.inr ⟨hfits, target, callsForeign_resolvedTo hcall hsigned htakes⟩
    · exact Or.inl ⟨hmem, heq⟩
  | _ => exact Or.inl hmem

/-- What a move does to a call. -/
inductive CallStep (O : Set CallId) (s : Session) (A : Agenda) (s' : Session) (A' : Agenda)
    (call : CallId) : Prop
  | made (hnew : ¬ s.HasCall call) (htargets : (s'.call call).targets = none)
      (hlisted : call ∈ A'.calls) (hsignature : (s'.call call).signature = none)
  | kept (hcall : s.HasCall call) (htargets : (s'.call call).targets = (s.call call).targets)
      (hargs : (s'.call call).args = (s.call call).args)
      (hsignature : (s'.call call).signature = (s.call call).signature)
  | forgotten (hcall : s.HasCall call)
      (htargets : (s'.call call).targets = (s.call call).targets)
      (hargs : (s'.call call).args = (s.call call).args)
      (hsignature : (s'.call call).signature = none) (hlisted : call ∈ A'.calls)
  | reopened (hopen : call ∈ O) (htargets : (s'.call call).targets = none)
      (hsignature : (s'.call call).signature = s'.inputTypes? call) (hout : ¬ s'.HasOut call)
      (hplain : s'.OffLibrary call)
  | resolved {targets : List InstanceId} (hcall : s.HasCall call)
      (htargets : (s'.call call).targets = some targets)
      (hargs : (s'.call call).args = (s.call call).args)
      (hsignature : (s'.call call).signature = (s.call call).signature)
      (hlisted : (s'.call call).node ∈ A'.nodes) (htyped : s.inputTypes? call ≠ none)
      (hids : ∀ id ∈ targets, s.HasInstance id) (hcovers : s.Covers A.gaps call targets)
      (hout : ¬ s.HasOut call)
      (hvacates : targets = [] → (s.call call).deferred = true ∨
        (s.call call).signature = none ∨ s.Vacates A.gaps call)
      (hopen : (s.call call).targets = none)
  | resolvedForeign {target : InstanceId} (hcall : s.HasCall call)
      (htargets : (s'.call call).targets = some [target])
      (hargs : (s'.call call).args = (s.call call).args)
      (hsignature : (s'.call call).signature = (s.call call).signature)
      (hlisted : (s'.call call).node ∈ A'.nodes) (hfits : s.FitsForeign call)
      (htypes : ∀ node, s'.typeOf node = s.typeOf node) (hforeign : s'.CallsForeign call target)
  | converted (hopen : call ∈ O) (hcall : s.HasCall call)
      (htargets : (s'.call call).targets = (s.call call).targets)
      (hconversions : (s'.call call).conversions ≠ []) (hconverting : call ∈ A'.converting)
  | signed (hopen : call ∈ O) (hcall : s.HasCall call)
      (htargets : (s'.call call).targets = (s.call call).targets)
      (hargs : (s'.call call).args = (s.call call).args)
      (hsignature : (s'.call call).signature = s'.inputTypes? call)
      (hconverting : call ∈ A'.converting)

namespace CallStep

theorem of_call_eq (hcall : s.HasCall call) (h : s'.call call = s.call call) :
    CallStep O s A s' A' call :=
  .kept hcall (by rw [h]) (by rw [h]) (by rw [h])

/-- A change of a call that keeps its targets, its arguments and its signature. -/
theorem changeCall (changed : CallId) (hcall : (s.changeCall changed f).HasCall call)
    (hf : ∀ site, (f site).targets = site.targets ∧ (f site).args = site.args ∧
      (f site).signature = site.signature) : CallStep O s A (s.changeCall changed f) A' call :=
  .kept ((s.hasCall_changeCall changed call f).1 hcall)
    (s.changeCall_field changed call CallSite.targets fun site => (hf site).1)
    (s.changeCall_field changed call CallSite.args fun site => (hf site).2.1)
    (s.changeCall_field changed call CallSite.signature fun site => (hf site).2.2)

/-- A change of one call and the flow graph, as seen from any call. -/
theorem changeCall_withFlow {g : FlowGraph}
    (hcall : ((s.changeCall changed f).withFlow g).HasCall call)
    (hown : s.HasCall changed →
      ((s.changeCall changed f).withFlow g).call changed = f (s.call changed) →
      CallStep O s A ((s.changeCall changed f).withFlow g) A' changed) :
    CallStep O s A ((s.changeCall changed f).withFlow g) A' call := by
  have hold : s.HasCall call := (s.hasCall_changeCall changed call f).1 hcall
  by_cases heq : changed = call
  · subst heq
    exact hown hold (s.call_changeCall_self f hold)
  · exact of_call_eq hold (s.call_changeCall_of_ne f heq)

end CallStep

/-- Every move does one of these things to a call. -/
theorem Move.callStep (h : Move O (s, A) (s', A')) (hcall : s'.HasCall call) :
    CallStep O s A s' A' call := by
  cases h with
  | call site span observed h =>
    by_cases hnew : call.index = s.calls.size
    · refine .made (fun hold => hold.ne hnew) ?_ ?_ ?_
      · rw [call_withCall, if_pos hnew, h.targets]
      · cases call
        exact Or.inl (congrArg CallId.mk hnew)
      · rw [call_withCall, if_pos hnew, h.signature]
    · have hold := ((hasCall_withCall s call site span observed).1 hcall).resolve_right hnew
      exact .of_call_eq hold (by rw [call_withCall, if_neg hnew])
  | block | begin | finish | paramEdge | blockEdge | defer =>
    exact .changeCall _ hcall fun _ => ⟨rfl, rfl, rfl⟩
  | reopen hopen hopened hsignature hout hplain =>
    refine .changeCall_withFlow hcall fun hold hsite => .reopened hopen (by rw [hsite]) ?_ ?_ ?_
    · exact (congrArg CallSite.signature hsite).trans
        ((inputTypes?_reopened hold _).trans hsignature).symm
    · exact fun hlater => hout (((reopened_before _ _).hasOut_iff hold).1 hlater)
    · intro receiver type hreceiver htype
      rw [hsite] at hreceiver
      exact hplain receiver type hreceiver
        ((congrArg Prod.fst (held_reopened _ _ _)).symm.trans htype)
  | resolve hopened hopen hout htyped htargets hcovers _ hvacates =>
    refine .changeCall_withFlow hcall fun hold hsite => ?_
    exact .resolved hold (by rw [hsite]) (by rw [hsite]) (by rw [hsite])
      (Or.inl (by rw [hsite])) htyped htargets hcovers hout hvacates hopen
  | convert index kind hopen _ _ _ _ hconverting =>
    refine .changeCall_withFlow hcall fun hold hsite => ?_
    exact .converted hopen hold (by rw [hsite]) (by simp [hsite]) hconverting
  | sign hopen hconverting =>
    refine .changeCall_withFlow (g := s.flow) hcall fun hold hsite => ?_
    refine .signed hopen hold (by rw [hsite]) (by rw [hsite]) ?_ hconverting
    have hinputs := congrArg CallSite.inputs hsite
    exact (congrArg CallSite.signature hsite).trans (inputTypes?_congr hinputs fun _ _ => rfl).symm
  | resolveForeign hopened htarget hfits hsigned _ _ htakes =>
    refine .changeCall_withFlow hcall fun hold hsite => ?_
    exact .resolvedForeign hold (by rw [hsite]) (by rw [hsite]) (by rw [hsite])
      (Or.inl (by rw [hsite])) hfits
      (fun _ => congrArg Prod.fst ((held_resolvedTo _ _ _).trans (held_detached _ _)))
      (callsForeign_resolvedTo hold hsigned htakes)
  | forget forgotten =>
    refine .changeCall_withFlow (g := s.flow) hcall fun hold hsite => ?_
    exact .forgotten hold (by rw [hsite]) (by rw [hsite]) (by rw [hsite]) (Or.inl rfl)
  | _ => exact .kept hcall rfl rfl rfl

/-! ## Bodies of blocks -/

section

variable (h : Move O (s, A) (s', A'))
include h

/-- The body of a block that is written at a call is looked at once. -/
theorem Move.body?_eq (hcall : s.HasCall call) (hplain : (s.call call).blockArg = none)
    (hbody : s.body? call = some node) : s'.body? call = some node := by
  obtain ⟨block, hblock, hvisit⟩ := Option.bind_eq_some_iff.1 hbody
  -- A body that has been looked at is neither pending nor being looked at.
  have hvisited : ∀ visit, (s.call call).block.map (·.visit) = some visit →
      visit.node? = some node := by
    intro visit hsome
    rw [hblock] at hsome
    exact Option.some.inj hsome ▸ hvisit
  have hsite := h.site call
  change (s'.call call).block.bind (·.visit.node?) = some node
  generalize s'.call call = site at hsite ⊢
  cases hsite with
  | made hnew => exact absurd hcall hnew
  | block _ _ hblockArg => exact absurd hplain hblockArg
  | begin hpending => exact absurd (hvisited _ hpending) (by simp [Visit.node?])
  | finish _ hstarted => exact absurd (hvisited _ (hstarted hplain)) (by simp [Visit.node?])
  | _ => exact hbody

/-- A node stays frozen, unless it is that of a body whose call is being resolved again. -/
theorem Move.frozen (hs : s.Sound) (hfrozen : (s.flow.get node).frozen = true)
    (hbody : ∀ opened ∈ O, (s.call opened).targets = none → s.body? opened ≠ some node) :
    (s'.flow.get node).frozen = true := by
  cases h.nodeStep hs (lt_size_of_frozen hfrozen) with
  | kept _ _ hkept =>
    refine (hkept hfrozen).resolve_right ?_
    rintro ⟨opened, hopen, htargets, hthawed⟩
    exact hbody opened hopen htargets hthawed
  | set _ _ hsame => exact hsame.trans hfrozen

/-- A frozen node keeps its type. -/
theorem Move.typeOf_frozen (hs : s.Sound) (hfrozen : (s.flow.get node).frozen = true)
    (htype : s.typeOf node = some type) : s'.typeOf node = some type := by
  cases h.nodeStep hs (lt_size_of_frozen hfrozen) with
  | kept hsame => exact hsame.trans htype
  | set hset _ _ hsame =>
    rcases hsame hfrozen with hnone | hsome
    · exact absurd (hnone.symm.trans htype) (by simp)
    · exact hset.trans (hsome.symm.trans htype)

/-- The body of a block keeps the type that it is held to, unless its call is resolved again. -/
theorem Move.holdsBody (hs : s.Sound) (hcall : s.HasCall call)
    (hkept : call ∈ O → (s.call call).targets ≠ none) (hplain : (s.call call).blockArg = none)
    (hbody : s.HoldsBody call node type) : s'.HoldsBody call node type where
  body := h.body?_eq hcall hplain hbody.body
  frozen := by
    refine h.frozen hs hbody.frozen fun opened hopen hnone hsame => ?_
    obtain rfl := hs.bodies opened call node hsame hbody.body
    exact hkept hopen hnone
  typeOf := h.typeOf_frozen hs hbody.frozen hbody.typeOf

end

/-! ## Watched hierarchies -/

section Watch

variable {base cls : TypeId}

variable (h : Move O (s, A) (s', A'))
include h

/-- A call watches what it watched, unless it is being resolved again. -/
theorem Move.watched (hwatched : (call, base) ∈ s.watch.pairs) :
    (call, base) ∈ s'.watch.pairs ∨ call ∈ O ∧ (s'.call call).targets = none := by
  cases h with
  | watch => exact Or.inl ((SubclassWatch.mem_add _ _ _ _).2 (Or.inl hwatched))
  | @unwatch _ _ opened hopen hnone =>
    by_cases heq : call = opened
    · subst heq
      exact Or.inr ⟨hopen, hnone⟩
    · exact Or.inl ((SubclassWatch.mem_removeCall _ _ _).2 ⟨hwatched, heq⟩)
  | _ => exact Or.inl hwatched

/-- No class appears unnoticed below a base that is watched. -/
theorem Move.noticed (hs : s.Sound) (hwatched : (call, base) ∈ s.watch.pairs)
    (hrealizes : s'.types.Realizes base cls) :
    s.types.Realizes base cls ∨ (call, base, cls) ∈ A'.gaps := by
  cases h with
  | types t h => exact Or.inl (h.realizes_iff.1 hrealizes)
  | declare h =>
    refine (h.realizes_cases hs.types hrealizes).imp_right fun heq => Or.inr ⟨hwatched, ?_, heq⟩
    exact heq ▸ hrealizes.1
  | _ => exact Or.inl hrealizes

/-- A gap stays open until the call is told that it has to be resolved again. -/
theorem Move.gap_stays (hcall : s.HasCall call) (hwatched : (call, base) ∈ s.watch.pairs)
    (hsigned : (s'.call call).signature ≠ none) (hgap : (call, base, cls) ∈ A.gaps) :
    (call, base, cls) ∈ A'.gaps := by
  cases h with
  | wait h => exact h.gaps hgap
  | declare => exact Or.inl hgap
  | forget forgotten =>
    refine ⟨hgap, fun heq => hsigned ?_⟩
    obtain rfl : call = forgotten := heq
    rw [s.call_changeCall_self _ hcall]
  | unwatched => exact ⟨hgap, hwatched⟩
  | _ => exact hgap

end Watch

end Callsite
