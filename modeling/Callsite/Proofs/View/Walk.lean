import Callsite.Proofs.View.Engine

/-!
# Whole runs in a view

Calls are explained, resolved and met in programs.  Every step is followed in a view, and so is an
engine that is built up from any supply of fuel, by induction on the fuel.
-/

namespace Callsite

open TypeTable

variable {s : Session} {site : CallSite} {name : String} {owner : TypeId} {t : TypeTable}
  {call : CallId} {set : MatchSet} {args : List TypeId} {selfType receiver : Option TypeId}
  {scope : ScopeId} {span : Span} {v : View} {fuel : Nat}

open View

variable {v : View}

/-! ## Explanations -/

namespace Session

theorem explainField_tells {info : StructInfo} : v.Tells (s.explainField site info name)
      ((v.session s).explainField (v.site site) info name) := by
  simp only [explainField, session_types, name_respan, session_typeName, site_args,
    site_span, List.head?_map]
  rcases info.field? (fieldOf name) with _ | expected
  · exact .of _ _
  rcases site.args.head? with _ | arg
  · exact .of _ _
  · exact .of _ arg.span

section

variable (s : Session) (site : CallSite) (owner : TypeId) (name : String)

theorem explainUnknown_cause : (s.explainUnknown site owner name).cause =
      if site.receiver.isSome || owner != .program then
        .undefinedMethod name (some (s.types.name owner))
      else if !site.args.isEmpty || site.hasParens then .undefinedMethod name none
      else .undefinedName name := by
  simp only [explainUnknown, apply_ite Failure.cause, Failure.of]

theorem explainUnknown_frames : (s.explainUnknown site owner name).frames = [] := by
  simp only [explainUnknown, apply_ite Failure.frames, Failure.of, ite_self]

end

theorem explainUnknown_tells : v.Tells (s.explainUnknown site owner name)
      ((v.session s).explainUnknown (v.site site) owner name) := by
  have hsame : v.span = id → v.suggestions = id →
      (v.session s).explainUnknown (v.site site) owner name = s.explainUnknown site owner name := by
    intro hspan hsuggestions
    have hoptions : (v.session s).options.suggestions = s.options.suggestions :=
      congrFun hsuggestions s.options.suggestions
    simp only [explainUnknown, hoptions, session_types, session_flow, session_typeOf, site_receiver,
      site_args, site_span, site_hasBlock, site_hasParens, List.length_map, List.isEmpty_map,
      v.flow_eq s.flow hspan, hspan, respan_id, id]
  refine ⟨?_, ?_, hsame⟩
  · simp only [explainUnknown_cause, site_receiver, session_types, name_respan, site_args,
      List.isEmpty_map, site_hasParens]
  · rw [explainUnknown_frames, explainUnknown_frames]

theorem paramText_respan {param : Param} :
    (t.respan v.span).paramText owner (param.respan v.span) = t.paramText owner param := by
  have hargument : (t.respan v.span).typeArgument? owner = t.typeArgument? owner :=
    funext (t.typeArgument?_respan owner)
  simp only [paramText, Param.restriction_respan, Param.name_respan,
    name_respan, exprText_respan, hargument]

theorem overloadText_respan {fullName : String} {m : Method} :
    (t.respan v.span).overloadText owner fullName (m.respan v.span)
      = t.overloadText owner fullName m := by
  have hparams : (m.decl.params.map (Param.respan v.span)).map ((t.respan v.span).paramText owner)
      = m.decl.params.map (t.paramText owner) := by
    rw [List.map_map]
    exact List.map_congr_left fun param _ => paramText_respan
  unfold overloadText
  rw [Method.yields_respan, Method.decl_respan, MethodDecl.blockParam_respan,
    MethodDecl.params_respan, hparams]

theorem sharedNames_map (methods : List Method) :
    sharedNames (methods.map (Method.respan v.span)) = sharedNames methods := by
  have hnames : (methods.map (Method.respan v.span)).map (fun m => m.decl.params.map (·.name))
      = methods.map fun m => m.decl.params.map (·.name) := by
    simp [Function.comp_def]
  rw [sharedNames, sharedNames, hnames]

theorem missingText_respan (t : TypeTable) : (t.respan v.span).missingText = t.missingText := by
  funext fullName names hasBlock tuple
  simp only [missingText, name_respan]

theorem explainMismatch_view (s : Session) (site : CallSite) (owner : TypeId) (name : String)
    (methods : List Method) (missing : List (List TypeId)) :
    (v.session s).explainMismatch (v.site site) owner name (methods.map (Method.respan v.span))
        missing
      = s.explainMismatch site owner name methods missing := by
  have hfitting : (methods.map (Method.respan v.span)).filter
        (fun m => m.decl.acceptsArity site.args.length)
      = (methods.filter fun m => m.decl.acceptsArity site.args.length).map
        (Method.respan v.span) := by
    rw [List.filter_map]
    congr 1
    refine List.filter_congr fun m _ => ?_
    simp
  have harities : (methods.map (Method.respan v.span)).map (fun m => m.decl.arityText)
      = methods.map fun m => m.decl.arityText := by
    simp
  have hoverloads : (methods.map (Method.respan v.span)).map
        ((s.types.respan v.span).overloadText owner (s.fullName owner name))
      = methods.map (s.types.overloadText owner (s.fullName owner name)) := by
    rw [List.map_map]
    exact List.map_congr_left fun m _ => overloadText_respan
  simp only [explainMismatch, session_fullName, site_args, List.length_map, hfitting,
    List.isEmpty_map, harities, site_hasBlock, List.all_map, site_argNodes, session_typeName,
    session_types, hoverloads, missingText_respan, sharedNames_map]
  rfl

theorem explain_tells (s : Session) (call : CallId) (owner : TypeId) (name : String)
    (missing : List (List TypeId)) : v.Tells (s.explain call owner name missing)
      ((v.session s).explain call owner name missing) := by
  have hmethods : ((v.session s).types.methodsNamed owner name).map (v.session s).types.method
      = ((s.types.methodsNamed owner name).map s.types.method).map (Method.respan v.span) := by
    rw [session_types, methodsNamed_respan v.absent, List.map_map]
    exact List.map_congr_left fun id _ => s.types.method_respan v.absent id
  simp only [explain, hmethods, session_call]
  rw [session_types, shape_respan]
  split
  · exact explainField_tells
  · cases (s.types.methodsNamed owner name).map s.types.method with
    | nil => exact explainUnknown_tells
    | cons m methods =>
      change v.Tells _ (Failure.of ((v.session s).explainMismatch (v.site (s.call call)) owner
        name ((m :: methods).map (Method.respan v.span)) missing) _)
      rw [explainMismatch_view]
      exact .of _ _

end Session

namespace Infer

variable {engine : Engine}

theorem failUnresolved_follows {α : Type} : v.Follows (failUnresolved call owner name set : Infer α)
      (failUnresolved call owner name set) :=
  .get_bind fun s => .throw_tells (s.explain_tells call owner name set.missing)

/-! ## Generated methods -/

theorem defineConstructors_follows {metaType : TypeId} :
    v.Respects (defineConstructors call metaType args) := by
  refine .get_bind fun s => ?_
  simp only [session_call, site_hasBlock, site_span, session_types, instanceType_respan]
  refine .bind (.build (lookupMatches_respans v.absent _)) fun inits => ?_
  refine .ite (fun _ => ?_) fun _ => .get_bind fun s' => ?_
  · refine .bind (.build (.mapM (constructorFor_respans v.absent) _)) fun found => ?_
    exact .pure _
  rw [session_types, methodsNamed_respan v.absent, name_respan]
  have hallocator := register_respans v.absent metaType allocatorDecl .constructor
  rw [allocatorDecl_respan v.absent] at hallocator
  refine .ite (fun _ => .bind (failUnresolved_follows) fun _ => ?_) fun _ => ?_
  all_goals
    refine .ite (fun _ => .bind (.fail _ _) fun _ => ?_) fun _ => ?_
    all_goals exact .bind (.build hallocator) fun method => .pure _

theorem defineForwarder_follows : v.Respects (defineForwarder call owner name args) := by
  refine .get_bind fun s => ?_
  rw [session_call, site_args, List.length_map]
  have hforwarder := register_respans v.absent owner
    (forwarderDecl name (s.call call).args.length) .methodMissing
  rw [forwarderDecl_respan v.absent] at hforwarder
  exact .bind (.build hforwarder) fun method => .pure _

/-! ## Resolving calls -/

theorem fallbackMatches_follows {own : MatchSet} :
    v.Respects (fallbackMatches call owner name args own) := by
  refine .get_bind fun s => ?_
  simp only [session_call, site_hasBlock, site_receiver]
  refine .bind (.build (lookupMatches_respans v.absent _)) fun program => ?_
  refine .get_bind fun s' => ?_
  rw [session_types, firstMethod?_respan v.absent]
  refine .ite (fun _ => defineForwarder_follows) fun _ => ?_
  exact .ite (fun _ => .pure _) fun _ => .pure _

theorem findMatches_follows : v.Respects (findMatches call owner name) := by
  refine .get_bind fun s => ?_
  simp only [session_argTypes, session_call, site_hasBlock]
  refine .bind (.build (lookupMatches_respans v.absent _)) fun own => ?_
  refine .ite (fun _ => .pure own) fun _ => .get_bind fun s' => ?_
  refine .ite (fun _ => defineConstructors_follows) fun _ => ?_
  exact .ite (fun _ => fallbackMatches_follows) fun _ => .pure own

section

variable (he : engine.Follows v)
include he

theorem settle_follows : v.Respects (settle engine call owner selfType name set) := by
  refine .ite (fun _ => ?_) fun _ => .ite (fun _ => ?_) fun _ => ?_
  · exact .mapM_same (fun found => instantiate_follows he) _
  · refine .bind (.modifyCall call ?_) fun _ => .pure []
    exact fun _ => rfl
  · exact failUnresolved_follows

theorem resolveConcrete_follows : v.Respects (resolveConcrete engine call selfType name owner) :=
  findMatches_follows.bind fun _ => settle_follows he

theorem resolveBelow_follows {base : TypeId} {onMeta : Bool} :
    v.Respects (resolveBelow engine call selfType name base onMeta) := by
  refine .bind (.modify (fun _ => rfl) fun _ => .of_kept rfl) fun _ => ?_
  refine .bind (.build (intern_respans)) fun hierarchy => .get_bind fun s => ?_
  simp only [session_types, concreteTypes_respan]
  refine .bind (.mapM_same (fun cls => ?_) _) fun targets => .pure _
  cases onMeta with
  | false => exact resolveConcrete_follows he
  | true =>
    exact .bind (.build (metaclass_respans cls)) fun owner =>
      resolveConcrete_follows he

theorem resolveOn_follows : v.Respects (resolveOn engine call selfType name owner) := by
  refine .get_bind fun s => ?_
  rw [session_types, shape_respan]
  split
  · exact resolveBelow_follows he
  · exact resolveBelow_follows he
  · refine findMatches_follows.bind fun set => .get_bind fun s' => ?_
    refine .ite (fun _ => ?_) fun _ => settle_follows he
    refine (resolveBelow_follows he).bind fun targets => ?_
    exact .ite (fun _ => failUnresolved_follows) fun _ => .pure targets

theorem resolveSuper_follows : v.Respects (resolveSuper engine call) := by
  refine .get_bind fun s => ?_
  simp only [session_call, site_scope, session_bodyScope, session_scope, site_span, session_method,
    Method.owner_respan, Method.name_respan]
  rw [session_types, name_respan]
  cases (s.scope (s.bodyScope (s.call call).scope)).method with
  | none => exact .fail _ _
  | some id =>
    refine .bind (.build (superOwner?_respans _)) fun parent => ?_
    cases parent with
    | none => exact .fail _ _
    | some parent => exact resolveOn_follows he

end

theorem release_follows {body : Option NodeId} : v.Respects (release call body) := by
  have hwatch : v.Respects (modify fun s => { s with watch := s.watch.removeCall call }) :=
    .modify (fun _ => rfl) fun _ => .of_kept rfl
  cases body with
  | none => exact hwatch
  | some body =>
    refine .bind (.modifyFlow fun g => v.flow_setFrozen g body false) fun _ => ?_
    exact takeOutput_follows.bind fun _ => hwatch

theorem reopen_follows {signature : List TypeId} : v.Respects (reopen call signature) := by
  refine .get_bind fun s => ?_
  have hbody : ((v.site (s.call call)).block.bind (·.visit.node?))
      = (s.call call).block.bind (·.visit.node?) := by
    rw [site_block, Option.bind_map]
    rfl
  simp only [session_call, hbody, site_node, site_resolved, session_resultNodes, site_paramEdges,
    site_blockEdges]
  refine .bind (.modifyCall call ?_) fun _ => ?_
  · exact fun _ => rfl
  refine disconnect_follows.bind fun _ => ?_
  refine .bind (.modifyFlow fun g => ?_) fun _ => release_follows
  exact v.flow_foldl g (fun g edge => v.flow_removeEdge g edge.1 edge.2) _

theorem blockArgBody_respan (names : List String) (span : Span) :
    (blockArgBody names span).respan v.span = blockArgBody names (v.span span) := by
  simp only [blockArgBody, Expr.respan, Form.respan, Call.respan, Call.plain, Expr.respan?,
    Expr.respanAll_eq, List.map_map, Function.comp_def, Block.respan?]

theorem newVar_follows : v.Follows (newVar scope span name) (newVar scope (v.span span) name) :=
  .bind (.newNode span) fun node => .bind (.bindVar scope name node) fun _ => .pure node

theorem expandBlockArg_follows : v.Respects (expandBlockArg call) := by
  refine .get_bind fun s => ?_
  simp only [session_call, site_blockArg, session_typeOf, site_scope, site_span]
  rw [session_types, name_respan]
  rcases (s.call call).blockArg with _ | blockArg
  · exact .pure _
  simp only [Option.bind_some]
  rcases s.typeOf blockArg with _ | type
  · exact .pure _
  dsimp only
  rw [shape_respan]
  split
  · next args _ _ =>
      refine .bind (.childScope _) fun scope => .bind (.bindVar scope "#fn" blockArg) fun _ => ?_
      refine .bind (.mapM_same (fun _ => newVar_follows) _) fun params => .modifyCall call ?_
      intro site
      rw [site_span, ← blockArgBody_respan]
      rfl
  · exact .fail _ _

theorem watchArguments_follows : v.Respects (watchArguments call) := by
  refine .get_bind fun s => ?_
  have hobserve : (v.session s).options.observeArguments = s.options.observeArguments := rfl
  simp only [hobserve, session_argTypes, session_types, shape_respan]
  refine .ite (fun _ => .forM_same (fun member => ?_) _) fun _ => .pure _
  cases s.types.shape member with
  | hierarchy base => exact .modify (fun _ => rfl) fun _ => .of_kept rfl
  | _ => exact .pure _

section

variable (he : engine.Follows v)
include he

theorem resolve_follows : v.Respects (resolve engine call receiver) := by
  refine .get_bind fun s => ?_
  have hmembers : (v.session s).types.members = s.types.members := rfl
  simp only [session_call, site_name, hmembers, site_scope, session_scope]
  cases receiver with
  | some type =>
    refine .bind (.mapM_same (fun owner => ?_) _) fun targets => .pure _
    exact resolveOn_follows he
  | none =>
    refine .ite (fun _ => resolveSuper_follows he) fun _ => ?_
    exact resolveOn_follows he

theorem resolveFor_follows {signature : List TypeId} :
    v.Respects (resolveFor engine call receiver signature) := by
  refine reopen_follows.bind fun _ => ?_
  refine expandBlockArg_follows.bind fun _ => ?_
  refine watchArguments_follows.bind fun _ => ?_
  refine (resolve_follows he).bind fun targets => .get_bind fun s => ?_
  simp only [session_call, site_targets, site_node, session_resultNodes]
  refine .ite (fun _ => ?_) fun _ => .pure _
  refine .bind (.modifyCall call ?_) fun _ => connect_follows he _
  exact fun _ => rfl

theorem recalculateInputs_follows : v.Respects (recalculateInputs engine call receiver) := by
  refine .get_bind fun s => ?_
  simp only [session_call, site_argNodes, session_typeOf, site_node, session_inputTypes?,
    site_signature]
  refine .ite (fun _ => setType_follows he) fun _ => ?_
  cases s.inputTypes? call with
  | none => exact .pure _
  | some signature => exact .ite (fun _ => .pure _) fun _ => resolveFor_follows he

theorem recalculatePlain_follows : v.Respects (recalculatePlain engine call receiver) := by
  refine .get_bind fun s => ?_
  simp only [session_call, site_receiver]
  exact .ite (fun _ => forbidOut_follows.bind fun _ => recalculateInputs_follows he)
    fun _ => recalculateInputs_follows he

theorem recalculateWith_follows : v.Respects (recalculateWith engine call) := by
  refine .get_bind fun s => ?_
  simp only [session_call, site_receiver, session_typeOf, session_types, shape_respan]
  cases (s.call call).receiver.bind s.typeOf with
  | none => exact recalculatePlain_follows he
  | some type =>
    refine .bind (.known type) fun _ => ?_
    cases s.types.shape type with
    | library info => exact recalculateForeign_follows he
    | _ => exact recalculatePlain_follows he

theorem noticeSubclass_follows {cls : TypeId} : v.Respects (noticeSubclass engine cls) := by
  refine .get_bind fun s => ?_
  simp only [session_watch, session_types, ancestors_respan]
  refine .forM_same (fun call => ?_) _
  refine .bind (.modifyCall call ?_) fun _ => he.recalculate call
  exact fun _ => rfl

end

/-! ## Walking through expressions -/

theorem denoteIn_follows (type : TypeExpr) :
    v.Follows (denoteIn scope span type) (denoteIn scope (v.span span) type) :=
  .get_bind fun _ => .denoting (denote_respans v.absent)

theorem declareVar_follows :
    v.Follows (declareVar scope name span) (declareVar scope name (v.span span)) := by
  refine .get_bind fun s => ?_
  rw [session_findVar?]
  cases s.findVar? scope name with
  | some node => exact .pure node
  | none => exact newVar_follows

theorem derived_follows (he : engine.Follows v) {rule : Rule} (inputs : List NodeId) :
    v.Follows (derived engine rule span inputs) (derived engine rule (v.span span) inputs) :=
  .bind (.ruledNode rule span) fun node =>
    (connect_follows he inputs).bind fun _ => .pure node

theorem visitArg_follows (he : engine.Follows v) (arg : Expr) :
    v.Follows (v.argument <$> visitArg engine scope arg)
      (visitArg engine scope (arg.respan v.span)) := by
  have hvisit := he.visit scope arg
  obtain ⟨form, span⟩ := arg
  cases form with
  | out name =>
    exact declareVar_follows.bind_mapped fun node => .map_pure _ _
  | _ => exact hvisit.bind_mapped fun node => .map_pure _ _

theorem superArgs_follows (he : engine.Follows v) :
    v.Follows (List.map v.argument <$> superArgs engine scope span)
      (superArgs engine scope (v.span span)) := by
  unfold superArgs
  rw [map_bind]
  refine .get_bind fun s => ?_
  simp only [session_bodyScope, session_scope, session_method, Method.decl_respan,
    MethodDecl.params_respan, List.filterMap_map]
  cases (s.scope (s.bodyScope scope)).method with
  | none => exact .map_pure _ []
  | some method =>
    have hvars : ∀ (vars : NameMap NodeId), (fun param : Param => vars.get? param.name)
        ∘ Param.respan v.span = fun param => vars.get? param.name := by
      intro vars
      funext param
      simp
    simp only [hvars]
    refine .mapM_mapped (fun var => ?_) _
    exact (derived_follows he [var]).bind_mapped fun node => .map_pure _ _

theorem openBlock_follows (block : Block) : v.Follows (v.block <$> openBlock scope span block)
      (openBlock scope (v.span span) (block.respan v.span)) := by
  obtain ⟨params, body⟩ := block
  rw [Block.respan, Expr.respan?_eq]
  refine Follows.bind_mapped (.childScope scope) fun inner => ?_
  exact Follows.bind_mapped (.mapM_same (fun _ => newVar_follows) _) fun nodes => .map_pure _ _

theorem isBareSuper_respan {call : Call} : isBareSuper (call.respan v.span) = isBareSuper call := by
  obtain ⟨receiver, name, args, block, blockArg, hasParens⟩ := call
  simp only [isBareSuper, Call.respan, Expr.respan?_eq, Expr.respanAll_eq, Option.isNone_map,
    List.isEmpty_map]

theorem enterCall_follows (he : engine.Follows v) (scope : ScopeId) (span : Span) (call : Call)
    (receiver : Option NodeId) (args : List Argument) :
    v.Follows (enterCall engine scope call span receiver args)
      (enterCall engine scope (call.respan v.span) (v.span span) receiver
        (args.map v.argument)) := by
  obtain ⟨_, name, _, block, blockArg, hasParens⟩ := call
  unfold enterCall
  simp only [Call.respan, Expr.respan?_eq, Block.respan?_eq]
  refine (Follows.optionMapM_map (openBlock_follows) block).bind_map fun block => ?_
  refine .bind (.optionMapM (he.visit scope) _) fun blockArg => ?_
  refine .bind (.newNode span) fun node => ?_
  refine .bind (.pushCall { CallSite.fresh node name receiver scope span with
    args, block, blockArg, hasParens }) fun id => ?_
  simp only [argNodes_map]
  refine .bind (.modifyFlow fun g => ?_) fun _ => ?_
  · exact v.flow_foldl g (fun g input => v.flow_addObserver g input (.call id)) _
  · exact (he.recalculate id).bind fun _ => .pure node

theorem visitCall_follows (he : engine.Follows v) {call : Call} :
    v.Follows (visitCall engine scope call span)
      (visitCall engine scope (call.respan v.span) (v.span span)) := by
  have henter := enterCall_follows he scope span call
  have hbare : isBareSuper (call.respan v.span) = isBareSuper call := isBareSuper_respan
  obtain ⟨receiver, name, args, block, blockArg, hasParens⟩ := call
  unfold visitCall
  rw [hbare]
  simp only [Call.respan, Expr.respan?_eq, Expr.respanAll_eq] at henter ⊢
  refine .bind (.optionMapM (he.visit scope) _) fun receiver => ?_
  exact .ite (fun _ => (superArgs_follows he).bind_map fun args => henter receiver args)
    fun _ => (Follows.mapM_map (visitArg_follows he) args).bind_map
      fun args => henter receiver args

/-! ## Declarations -/

theorem visitMethod_follows {decl : MethodDecl} :
    v.Follows (visitMethod scope decl) (visitMethod scope (decl.respan v.span)) := by
  have howner : v.Respects (methodOwner scope decl.onSelf) := .get_bind fun s =>
    .ite (fun _ => .build (metaclass_respans _)) fun _ => .pure _
  unfold visitMethod
  rw [MethodDecl.onSelf_respan]
  exact howner.bind fun owner =>
    .bind (.build (register_respans v.absent owner decl .user)) fun _ => .pure _

theorem enterClass_follows (he : engine.Follows v) {decl : ClassDecl} {parent : Option TypeId} :
    v.Follows (enterClass engine decl parent) (enterClass engine (decl.respan v.span) parent) := by
  obtain ⟨name, superclass, isAbstract, typeVars, body⟩ := decl
  rw [ClassDecl.respan, Expr.respanAll_eq]
  refine .bind (.build (declareClass_respans _)) fun declared => ?_
  obtain ⟨cls, created⟩ := declared
  refine .bind (.build (metaclass_respans cls)) fun metaType => ?_
  refine .bind (.modifyGet (fun _ => rfl) fun _ => .of_kept rfl) fun inner => ?_
  refine .bind (.forM (fun expr => (he.visit inner expr).bind fun _ => .pure _) _) fun _ => ?_
  exact .ite (fun _ => noticeSubclass_follows he) fun _ => .pure _

theorem visitClass_follows (he : engine.Follows v) {decl : ClassDecl} :
    v.Follows (visitClass engine scope decl span)
      (visitClass engine scope (decl.respan v.span) (v.span span)) := by
  obtain ⟨name, superclass, isAbstract, typeVars, body⟩ := decl
  refine .bind (.optionMapM_same (denoteIn_follows) _) fun parent => ?_
  refine .get_bind fun s => ?_
  exact .ite (fun _ => .bind (.forM_same Follows.known _) fun _ => enterClass_follows he)
    fun _ => enterClass_follows he

theorem denoteFields_follows {library : TypeId} {fields : List (String × TypeExpr)} :
    v.Follows (denoteFields library span fields) (denoteFields library (v.span span) fields) := by
  refine .mapM_same (fun field => ?_) _
  exact .bind (.denoting (denote_respans v.absent)) fun type => .pure (field.1, type)

theorem visitLibrary_follows {decl : LibraryDecl} :
    v.Follows (visitLibrary decl span) (visitLibrary decl (v.span span)) := by
  refine .bind (.build (declareLibrary_respans decl.name)) fun library => ?_
  refine .bind (.forM_same (fun struct => ?_) _) fun _ => .forM_same (fun function => ?_) _
  · refine denoteFields_follows.bind fun fields => ?_
    exact .bind (.build (declareStruct_respans v.absent)) fun _ => .pure _
  · refine denoteFields_follows.bind fun params => ?_
    refine .bind (.denoting (denoteResult_respans v.absent)) fun result => ?_
    exact .bind (.build (declareExternal_respans v.absent)) fun _ => .pure _

theorem functionParam_follows {outer inner : ScopeId} (param : Param) :
    v.Follows (functionParam outer inner span param)
      (functionParam outer inner (v.span span) (param.respan v.span)) := by
  have hbind : ∀ type, v.Follows (typedVar inner span param.name type)
      (typedVar inner (v.span span) param.name type) :=
    fun type => .bind (.typedNode type span) fun node =>
      .bind (.bindVar inner param.name node) fun _ => .pure type
  unfold functionParam
  rw [Param.restriction_respan, Param.name_respan]
  cases param.restriction with
  | some restriction => exact (denoteIn_follows restriction).bind hbind
  | none => exact hbind .nil

/-! ## Expressions -/

theorem visitWith_follows (he : engine.Follows v) {expr : Expr} :
    v.Follows (visitWith engine scope expr) (visitWith engine scope (expr.respan v.span)) := by
  have hvisit := he.visit scope
  obtain ⟨form, span⟩ := expr
  have htyped : ∀ type, v.Follows (typedNode type span) (typedNode type (v.span span)) :=
    fun type => .typedNode type span
  have hderived : ∀ rule inputs, v.Follows (derived engine rule span inputs)
      (derived engine rule (v.span span) inputs) :=
    fun rule inputs => derived_follows he inputs
  rw [Expr.respan]
  cases form with
  | nil => exact htyped .nil
  | bool value => exact htyped .bool
  | int value => exact htyped .int32
  | char value => exact htyped .char
  | str value => exact htyped .string
  | symbol name => exact htyped .symbol
  | array items =>
    rw [Form.respan, Expr.respanAll_eq]
    exact .bind (.mapM hvisit items) fun nodes => hderived .array nodes
  | var name =>
    refine .get_bind fun s => ?_
    rw [session_findVar?]
    cases s.findVar? scope name with
    | some var => exact hderived .union [var]
    | none => exact visitCall_follows he
  | selfRef => exact .get_bind fun s => htyped (s.scope scope).selfType
  | assign target value =>
    refine (hvisit value).bind fun value => declareVar_follows.bind fun var => ?_
    exact (connect_follows he [value]).bind fun _ => .pure value
  | out name => exact .fail _ span
  | path type =>
    refine (denoteIn_follows type).bind fun type => ?_
    exact .bind (.build (metaclass_respans type)) htyped
  | call call =>
    exact visitCall_follows he
  | yield args =>
    rw [Form.respan, Expr.respanAll_eq]
    exact visitYield_follows he
  | seq items =>
    rw [Form.respan, Expr.respanAll_eq]
    refine .bind (.mapM hvisit items) fun nodes => ?_
    cases nodes.getLast? with
    | some last => exact .pure last
    | none => exact htyped .nil
  | branch test yes no =>
    refine (hvisit test).bind fun _ => (hvisit yes).bind fun yes => (hvisit no).bind fun no => ?_
    exact hderived .union [yes, no]
  | method decl =>
    exact visitMethod_follows.bind fun _ => htyped .nil
  | classDecl decl =>
    exact (visitClass_follows he).bind fun _ => htyped .nil
  | library decl => exact visitLibrary_follows.bind fun _ => htyped .nil
  | primitive type => exact (denoteIn_follows type).bind htyped
  | allocate type =>
    cases type with
    | none => exact .get_bind fun s => htyped (s.types.instanceType (s.scope scope).selfType)
    | some type => exact (denoteIn_follows type).bind htyped
  | function params body =>
    rw [Form.respan, Param.respanAll_eq]
    refine .bind (.childScope scope) fun inner => ?_
    refine .bind (.mapM (functionParam_follows) params) fun types => ?_
    exact (he.visit inner body).bind fun result => hderived (.function types) [result]
  | classOf value =>
    exact (hvisit value).bind fun node => hderived .metaclass [node]

end Infer

/-! ## Programs -/

def Program.respan (f : Span → Span) (program : Program) : Program :=
  { program with exprs := program.exprs.map (Expr.respan f) }

theorem Engine.ofFuel_follows : (Engine.ofFuel fuel).Follows v := by
  induction fuel with
  | zero => exact ⟨fun _ _ => .throw_outOfFuel, fun _ => .throw_outOfFuel⟩
  | succ fuel ih =>
    exact ⟨fun scope expr => Infer.visitWith_follows ih,
      fun call => Infer.recalculateWith_follows ih⟩

theorem Infer.checkWith_follows {program : Program} : v.Follows (checkWith (.ofFuel fuel) program)
      (checkWith (.ofFuel fuel) (program.respan v.span)) :=
  .mapM ((Engine.ofFuel_follows).visit .root) program.exprs

end Callsite
