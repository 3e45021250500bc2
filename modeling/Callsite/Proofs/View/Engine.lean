import Callsite.Proofs.View.Follows

/-!
# The steps of inference in a view

Every step that an engine takes is followed in a view, if the engine's own steps are.  The proofs
go through the computations line by line; what a computation reads from the session it reads from
the view as well.
-/

namespace Callsite

open TypeTable

variable {body node param : NodeId} {found : Match} {declared : DeclaredOutput}
  {type expected library selfType : TypeId} {call : CallId} {span : Span} {scope : ScopeId}
  {arg : Argument} {name function : String} {index : Nat} {external : External} {α : Type}
  {s s' : Session} {blockInputs : Option (List NodeId)} {id : InstanceId}

variable {α β γ : Type}

/-- What inference steps call back is followed in a view. -/
structure Engine.Follows (v : View) (engine : Engine) : Prop where
  visit : ∀ scope expr, v.Follows (engine.visit scope expr)
    (engine.visit scope (expr.respan v.span))
  recalculate : ∀ call, v.Respects (engine.recalculate call)

namespace Infer

open View

variable {v : View} {engine : Engine}

theorem text_respan (declared : DeclaredOutput) (t : TypeTable) :
    declared.text (t.respan v.span) = declared.text t := by
  simp only [DeclaredOutput.text, name_respan, exprText_respan]

/-! ## Propagation -/

theorem checkOutput_follows {found : TypeId} : v.Respects (checkOutput body found declared) := by
  have hrestrict := restrict_respans (f := v.span) declared.owner declared.output found
    declared.free
  refine (Follows.build hrestrict).bind fun restricted => ?_
  dsimp only
  split
  · exact .pure _
  · refine .get_bind fun s => ?_
    rw [session_types, text_respan, name_respan, session_flow, flow_get]
    exact .fail _ _

theorem takeOutput_follows : v.Respects (takeOutput body) :=
  .modifyGet (fun _ => rfl) fun _ => .of_kept rfl

theorem assign_follows : v.Respects (assign node type) := by
  have hset : v.Respects (modifyFlow (·.setType node type)) :=
    .modifyFlow fun g => v.flow_setType g node type
  refine .get_bind fun s => ?_
  simp only [session_types, name_respan, session_flow, flow_get, node_frozen, node_type, node_span]
  split
  · cases (s.flow.get node).type with
    | some current =>
      dsimp only
      split
      · exact (Follows.fail _ _).bind fun _ => hset
      · exact hset
    | none =>
      refine takeOutput_follows.bind fun declared => ?_
      cases declared with
      | none => exact hset
      | some declared =>
        exact checkOutput_follows.bind fun _ => hset
  · exact hset

theorem change?_follows : v.Respects (change? node) := by
  refine .get_bind fun s => ?_
  simp only [session_flow, flow_joined, flow_typeOf]
  refine (Follows.forM_same Follows.known _).bind fun _ => ?_
  exact (Follows.build (v.derive_respans s.flow node)).bind fun derived => .pure _

theorem wake_follows (he : engine.Follows v) {observer : Observer} :
    v.Respects (wake engine observer) := by
  cases observer with
  | call call => exact (he.recalculate call).bind fun _ => .pure []
  | node node =>
    refine (change?_follows).bind fun changed => ?_
    cases changed with
    | none => exact .pure []
    | some type =>
      refine assign_follows.bind fun _ => .get_bind fun s => ?_
      rw [session_flow, flow_get]
      exact .pure _

theorem propagate_follows (he : engine.Follows v) {budget : Nat} (waiting : List Observer) :
    v.Respects (propagate engine budget waiting) := by
  induction budget generalizing waiting with
  | zero =>
    cases waiting with
    | nil => exact .pure ()
    | cons observer rest => exact .throw_outOfFuel
  | succ budget ih =>
    cases waiting with
    | nil => exact .pure ()
    | cons observer rest =>
      exact (wake_follows he).bind fun woken => ih (woken ++ rest)

/-- A computation one propagation deeper; where the limit has no room for it, it has to fail. -/
theorem deeper_follows {x y : Infer α} (hx : v.Follows x y)
    (hroom : s.propagationDepth < s.options.maxPropagationDepth ∨
      ∃ e, x s.enterWave = .error (.failed e) s.enterWave) :
    v.FollowsFrom s (deeper x) (deeper y) := by
  obtain ⟨hmirrors, hkeeps⟩ := hx s.enterWave
  refine ⟨Mirrors.leave (fun s => { s with propagationDepth := s.propagationDepth - 1 })
    (fun _ => rfl) hmirrors, ?_⟩
  rw [deeper]
  rcases hroom with hroom | ⟨e, hrun⟩
  · cases hrun : x s.enterWave with
    | ok a s' =>
      rw [hrun] at hkeeps
      exact Session.Keeps.leaveWave hkeeps (.inl hroom)
    | error halt s' =>
      rw [hrun] at hkeeps
      obtain ⟨left, hleft, hlength⟩ := hkeeps
      exact ⟨left, hleft.leaveWave (.inl hroom), hlength⟩
  · rw [hrun]
    exact ⟨[], (Session.Keeps.refl _).leaveWave (.inr rfl), fun _ _ => Nat.zero_le _⟩

section

variable (he : engine.Follows v)
include he

theorem notify_follows : v.Respects (notify engine node) := by
  refine .get_bind fun s => ?_
  simp only [session_flow, flow_get, node_observers, node_span]
  split
  · exact .pure _
  refine fun s => deeper_follows (.get_bind fun s' => ?_) ?_
  · have hlimit : (v.session s').options.maxPropagationDepth
        = s'.options.maxPropagationDepth + v.waves := rfl
    have hdepth : (v.session s').propagationDepth = s'.propagationDepth := rfl
    simp only [hlimit, hdepth]
    split
    · refine .limit fun hwidens => ?_
      have hwaves : v.waves = 0 := by
        rw [View.Widens] at hwidens
        omega
      rw [hwaves, Nat.add_zero, if_pos (by assumption)]
    · rw [if_neg (by omega)]
      exact propagate_follows he _
  · exact (Nat.lt_or_ge _ _).imp_right fun hfull =>
      ⟨_, congrFun (if_pos (Nat.lt_succ_of_le hfull)) s.enterWave⟩

theorem setType_follows : v.Respects (setType engine node type) :=
  assign_follows.bind fun _ => notify_follows he

theorem update_follows : v.Respects (update engine node) := by
  refine (change?_follows).bind fun changed => ?_
  cases changed with
  | none => exact .pure _
  | some type => exact setType_follows he

theorem connect_follows (inputs : List NodeId) : v.Respects (connect engine node inputs) := by
  have hedges : ∀ g, v.flow (inputs.foldl (fun flow input => flow.addEdge node input) g)
      = inputs.foldl (fun flow input => flow.addEdge node input) (v.flow g) :=
    fun g => v.flow_foldl g (fun g input => v.flow_addEdge g node input) inputs
  exact (Follows.modifyFlow hedges).bind fun _ => update_follows he

end

theorem disconnect_follows {inputs : List NodeId} : v.Respects (disconnect node inputs) :=
  .modifyFlow fun g => v.flow_foldl g (fun g input => v.flow_removeEdge g node input) inputs

/-! ## Blocks -/

theorem blockResult_follows (he : engine.Follows v) {block : BlockSite} :
    v.Follows (blockResult engine block span)
      (blockResult engine (v.block block) (v.span span)) := by
  simp only [blockResult, block_body, block_scope]
  cases block.body with
  | none => exact .typedNode .nil span
  | some body => exact he.visit block.scope body

theorem visitBlock_follows (he : engine.Follows v) : v.Respects (visitBlock engine call) := by
  have hvisit : ∀ visit, v.Respects (modifyCall call (·.visited visit)) := by
    intro visit
    refine .modifyCall call fun site => ?_
    simp only [View.site, CallSite.visited, Option.map_map]
    rfl
  refine .get_bind fun s => ?_
  simp only [session_call, site_block, site_span]
  cases (s.call call).block with
  | none => exact .pure none
  | some block =>
    simp only [Option.map_some, block_visit]
    cases block.visit with
    | started => exact .pure none
    | finished node => exact .pure (some node)
    | pending =>
      refine (hvisit .started).bind fun _ => (blockResult_follows he).bind fun node => ?_
      exact (hvisit (.finished node)).bind fun _ => .pure (some node)

theorem declaredInput_follows {owner : TypeId} {free : Bindings} (input : TypeExpr) :
    v.Follows (declaredInput owner free span input)
      (declaredInput owner free (v.span span) input) := by
  refine (Follows.denoting (denote_respans v.absent)).bind fun type => .get_bind fun s => ?_
  have habstract : (v.session s).types.isAbstract type = s.types.isAbstract type := rfl
  rw [habstract]
  split
  · exact (Follows.build (intern_respans)).bind fun hierarchy => .typedNode _ span
  · exact .typedNode type span

theorem bindDeclared_follows (he : engine.Follows v) {source : NodeId} :
    v.Respects (bindDeclared engine call param source) := by
  refine .bind (.modifyCall call ?_) fun _ => connect_follows he [source]
  exact fun _ => rfl

theorem askCache_follows {key : InstanceKey} : v.Respects (askCache key) :=
  .modifyGet (fun _ => rfl) fun s => .of_kept (by simp only [Session.kept, s.cache.entries_ask])

theorem typeOf_follows : v.Respects (typeOf node) := by
  refine .get_bind fun s => ?_
  rw [session_typeOf]
  exact .pure _

theorem checkBody_follows : v.Respects (checkBody body declared) := by
  refine typeOf_follows.bind fun type => ?_
  cases type with
  | some found => exact checkOutput_follows
  | none => exact .bind (.modify (fun _ => rfl) fun _ => .of_kept rfl) fun _ => .pure _

theorem constrainBody_follows : v.Respects (constrainBody body declared) :=
  checkBody_follows.bind fun free =>
    (Follows.modifyFlow fun g => v.flow_setFrozen g body true).bind fun _ => .pure free

theorem matchBlock_follows (he : engine.Follows v) : v.Respects (matchBlock engine call found) := by
  refine .get_bind fun s => ?_
  simp only [session_method, Method.decl_respan, MethodDecl.blockParam_respan, Method.yields_respan,
    session_call, site_block, site_span]
  rcases (s.types.method found.method).decl.blockParam with _ | declared
  · exact .pure _
  rcases (s.types.method found.method).yields with _ | yields
  · exact .pure _
  rcases (s.call call).block with _ | block
  · exact .pure _
  refine .bind (.mapM_same declaredInput_follows _) fun sources => ?_
  refine .bind (.forM_same (fun edge => ?_) _) fun _ => ?_
  · exact bindDeclared_follows he
  refine (visitBlock_follows he).bind fun body => ?_
  rcases body with _ | body
  · exact .pure _
  rcases declared.output with _ | output
  · exact .pure _
  · exact constrainBody_follows.bind fun free => .pure _

theorem visitYield_follows (he : engine.Follows v) {args : List Expr} :
    v.Follows (visitYield engine scope args span)
      (visitYield engine scope (args.map (Expr.respan v.span)) (v.span span)) := by
  refine (Follows.mapM (he.visit scope) args).bind fun values => .get_bind fun s => ?_
  simp only [session_scope, session_call, site_block]
  rcases (s.scope scope).call with _ | call
  · exact .typedNode _ span
  simp only [Option.bind_some]
  rcases (s.call call).block with _ | block
  · exact .typedNode _ span
  refine .ite (fun _ => ?_) fun _ => .bind (.forM_same (fun edge => ?_) _) fun _ => ?_
  case refine_2 => exact connect_follows he [edge.2]
  all_goals
    refine .bind (.newNode span) fun node => .bind (visitBlock_follows he) fun body => ?_
    cases body with
    | none => exact .pure node
    | some body => exact (connect_follows he [body]).bind fun _ => .pure node

/-! ## Instantiation -/

theorem insideBody_follows {x y : Infer α} (hx : v.Follows x y)
    (hroom : s.instantiationDepth < s.options.maxInstantiationDepth) :
    v.FollowsFrom s (insideBody x) (insideBody y) := by
  obtain ⟨hmirrors, hkeeps⟩ := hx s.enterBody
  refine ⟨Mirrors.leave (fun s => { s with instantiationDepth := s.instantiationDepth - 1 })
    (fun _ => rfl) hmirrors, ?_⟩
  rw [insideBody]
  cases hrun : x s.enterBody with
  | ok a s' =>
    rw [hrun] at hkeeps
    exact Session.Keeps.leaveBody hkeeps hroom
  | error halt s' =>
    rw [hrun] at hkeeps
    obtain ⟨left, hleft, hlength⟩ := hkeeps
    exact ⟨left, hleft.leaveBody hroom, hlength⟩

theorem nested_follows {x y : Infer α} (hx : v.Follows x y) :
    v.Follows (nested span x) (nested (v.span span) y) := by
  refine .get_from fun s => ?_
  have hlimit : (v.session s).options.maxInstantiationDepth
      = s.options.maxInstantiationDepth + v.bodies := rfl
  have hdepth : (v.session s).instantiationDepth = s.instantiationDepth := rfl
  simp only [hlimit, hdepth]
  split
  · refine Follows.limit (fun hwidens => ?_) s
    have hbodies : v.bodies = 0 := by
      rw [View.Widens] at hwidens
      omega
    rw [hbodies, Nat.add_zero, if_pos (by assumption)]
  · rw [if_neg (by omega)]
    exact insideBody_follows hx (by omega)

theorem recordParam_follows {arg : NodeId} : v.Respects (recordParam call param arg) := by
  apply Follows.modifyCall
  exact fun _ => rfl

section

variable (he : engine.Follows v)
include he

theorem initVar_follows {value : NodeId} : v.Follows (initVar engine scope span name value)
      (initVar engine scope (v.span span) name value) :=
  .bind (.newNode span) fun var =>
    (connect_follows he [value]).bind fun _ => .bindVar scope name var

theorem passParam_follows {arg : NodeId} :
    v.Follows (passParam engine call scope span name arg type)
      (passParam engine call scope (v.span span) name arg type) := by
  refine .bind (.typedNode type span) fun pinned => ?_
  refine .bind (.modifyFlow fun g => v.flow_addEdge g pinned arg) fun _ => ?_
  refine recordParam_follows.bind fun _ => ?_
  exact (initVar_follows he).bind fun _ => .pure pinned

theorem defaultParam_follows (param : Param) : v.Follows (defaultParam engine scope span param)
      (defaultParam engine scope (v.span span) (param.respan v.span)) := by
  unfold defaultParam
  rw [Param.default_respan, Param.name_respan]
  cases param.default with
  | some default =>
    exact (he.visit scope default).bind fun value =>
      initVar_follows he
  | none => exact initVar_follows he

theorem makeInstance_follows :
    v.Respects (makeInstance engine call found selfType blockInputs) := by
  refine .get_bind fun s => ?_
  simp only [session_method, Method.decl_respan, MethodDecl.span_respan, MethodDecl.params_respan]
  generalize (s.types.method found.method).decl = decl
  refine .bind (.modifyGet (fun _ => rfl) fun _ => .of_kept rfl) fun scope => ?_
  refine .bind (.newNode decl.span) fun node => .bind (.pushInstance _) fun id => ?_
  refine .get_bind fun s => ?_
  simp only [session_call, site_argNodes, List.zip_map_left, ← List.map_drop]
  refine .bind (.mapM (fun entry => ?_) _) fun params => ?_
  · obtain ⟨param, arg, type⟩ := entry
    dsimp only [Prod.map]
    rw [Param.name_respan]
    exact passParam_follows he
  refine .bind (.modifyInstance id (fun _ => rfl) fun _ hbody => hbody) fun _ => ?_
  exact .bind (.forM (defaultParam_follows he) _) fun _ => .pure id

theorem makeInstance_inRange {call : CallId} {found : Match}
    (hrun : makeInstance engine call found selfType blockInputs s = .ok id s') :
    id.index < s'.instances.size := by
  obtain ⟨_, _, -, hrun⟩ := ok_of_bind_ok hrun
  obtain ⟨scope, s1, -, hrun⟩ := ok_of_bind_ok hrun
  obtain ⟨node, s2, -, hrun⟩ := ok_of_bind_ok hrun
  obtain ⟨id, s3, hpush, hrun⟩ := ok_of_bind_ok hrun
  obtain ⟨_, _, hget, hrun⟩ := ok_of_bind_ok hrun
  obtain ⟨params, s4, hparams, hrun⟩ := ok_of_bind_ok hrun
  obtain ⟨_, s5, hset, hrun⟩ := ok_of_bind_ok hrun
  obtain ⟨_, s6, hdefaults, hend⟩ := ok_of_bind_ok hrun
  have hpassed := (Follows.mapM_same (fun entry => passParam_follows he) _).keeps hparams
  have hfilled := (Follows.forM (defaultParam_follows he) _).keeps hdefaults
  cases hpush
  cases hget
  cases hset
  cases hend
  have hsize := Nat.le_trans hpassed.instances (by simpa using hfilled.instances)
  rwa [Array.size_push] at hsize

theorem visitBody_follows (id : InstanceId) : v.Respects (visitBody engine id) := by
  refine .get_bind fun s => ?_
  simp only [session_instanceAt, session_method, Method.decl_respan, MethodDecl.body_respan,
    MethodDecl.span_respan]
  generalize s.instanceAt id = inst
  generalize (s.types.method inst.method).decl = decl
  have hresult : ∀ body, v.Respects (setBody engine id inst.node body) := fun body =>
    .bind (.modifyInstance id (fun _ => rfl) fun _ => nofun) fun _ => connect_follows he [body]
  rcases decl.body with _ | body
  · exact hresult .nil
  rcases inst.scope with _ | scope
  · exact hresult .nil
  · exact (nested_follows (he.visit scope body)).bind hresult

/-- A body that was looked at to the end is there. -/
theorem visitBody_finishes (hrun : visitBody engine id s = .ok () s')
    (hid : id.index < s.instances.size) {entry : InstanceKey × InstanceId}
    (hentry : s'.Unfinished entry) : entry.2 ≠ id := by
  have hend : ∀ {s1 : Session} {node body : NodeId}, s.Keeps s1 [] →
      setBody engine id node body s1 = .ok () s' → entry.2 ≠ id := by
    intro s1 node body hkept hrun
    have hbefore := (connect_follows he [body]).keeps hrun
    have hentry := (hbefore.unfinished entry hentry).resolve_right List.not_mem_nil
    exact hentry.ne_of_body (Nat.lt_of_lt_of_le hid hkept.instances)
  obtain ⟨_, _, hget, hrun⟩ := ok_of_bind_ok hrun
  cases hget
  dsimp only at hrun
  generalize (s.types.method (s.instanceAt id).method).decl.body = body,
    (s.instanceAt id).scope = scope at hrun
  rcases body with _ | body
  · exact hend (.refl s) hrun
  rcases scope with _ | scope
  · exact hend (.refl s) hrun
  · obtain ⟨body, s1, hbody, hrun⟩ := ok_of_bind_ok hrun
    exact hend ((nested_follows (he.visit _ _)).keeps hbody) hrun

/-- An instance is entered and its body is looked at. -/
theorem enterBody_follows (hid : id.index < s.instances.size) {key : InstanceKey} {frame : String} :
    v.FollowsFrom s (insertCache key id >>= fun _ => within frame (visitBody engine id))
      (insertCache key id >>= fun _ => within frame (visitBody engine id)) := by
  have hinsert : s.Keeps { s with cache := s.cache.insert key id } [(key, id)] :=
    .insertCache key id
  obtain ⟨hmirrors, -⟩ := Follows.within frame (visitBody_follows he id)
    { s with cache := s.cache.insert key id }
  obtain ⟨-, hkeeps⟩ := visitBody_follows he id { s with cache := s.cache.insert key id }
  refine ⟨hmirrors, ?_⟩
  change s.KeepsBy (within frame (visitBody engine id) { s with cache := s.cache.insert key id })
  rw [within]
  cases hrun : visitBody engine id { s with cache := s.cache.insert key id } with
  | ok a s' =>
    rw [hrun] at hkeeps
    refine { hinsert.trans hkeeps with unfinished := fun entry hentry => .inl ?_ }
    refine ((hinsert.trans hkeeps).unfinished entry hentry).resolve_right fun hmem => ?_
    obtain rfl := List.mem_singleton.1 hmem
    exact visitBody_finishes he hrun hid hentry rfl
  | error halt s' =>
    rw [hrun] at hkeeps
    obtain ⟨left, hleft, hlength⟩ := hkeeps
    cases halt with
    | outOfFuel => exact ⟨_, hinsert.trans hleft, fun _ h => by cases h⟩
    | failed e =>
      refine ⟨_, hinsert.trans hleft, ?_⟩
      simpa [Failure.within] using hlength

theorem bindParams_follows : v.Respects (bindParams engine call id) := by
  refine .get_bind fun s => ?_
  simp only [session_instanceAt, session_call, site_argNodes]
  refine .forM_same (fun edge => ?_) _
  exact recordParam_follows.bind fun _ =>
    connect_follows he [edge.2]

theorem instantiate_follows {selfType : Option TypeId} :
    v.Respects (instantiate engine call found selfType) := by
  refine (matchBlock_follows he).bind fun matched => ?_
  refine .get_bind fun s => ?_
  have hnode : (fun b : BlockSite => b.visit.node?.bind s.typeOf) ∘ v.block
      = fun b => b.visit.node?.bind s.typeOf := rfl
  simp only [session_method, Method.decl_respan, MethodDecl.blockParam_respan, session_call,
    site_block, Option.isNone_map, session_typeOf, session_frame, Option.bind_map, hnode]
  refine .ite (fun _ => ?_) fun _ => (makeInstance_follows he).bind fun id =>
    (Follows.within _ (visitBody_follows he id)).bind fun _ => .pure id
  have hanswer : ∀ request id, v.Respects (answer request id) := fun request id =>
    .modifyGet (fun _ => rfl) fun _ => .of_kept rfl
  refine askCache_follows.bind fun cached => ?_
  cases cached with
  | some id => exact (Follows.within _ (bindParams_follows he)).bind fun _ => hanswer _ id
  | none =>
    refine fun s => .bind (makeInstance_follows he s) fun id s' hrun => ?_
    exact (enterBody_follows he (makeInstance_inRange he hrun)).bind fun _ s'' _ =>
      hanswer _ id s''

end

/-! ## Foreign calls -/

theorem mapIdx_map (g : α → β) (f : Nat → β → γ) (l : List α) :
    (l.map g).mapIdx f = l.mapIdx fun i a => f i (g a) := by
  apply List.ext_getElem?
  simp [Option.map_map, Function.comp_def]

theorem map_mapIdx (g : β → γ) (f : Nat → α → β) (l : List α) :
    (l.mapIdx f).map g = l.mapIdx fun i a => g (f i a) := by
  apply List.ext_getElem?
  simp [Option.map_map, Function.comp_def]

theorem map_listModify {f : α → α} {h : β → β} {g : α → β} (hf : ∀ a, g (f a) = h (g a))
    (l : List α) (i : Nat) : (l.modify i f).map g = (l.map g).modify i h := by
  apply List.ext_getElem?
  intro j
  simp only [List.getElem?_map, List.getElem?_modify]
  cases l[j]? with
  | none => rfl
  | some a =>
    split
    · exact congrArg some (hf a)
    · rfl

theorem find?_isOut_map (args : List Argument) :
    (args.map v.argument).find? (·.isOut) = (args.find? (·.isOut)).map v.argument := by
  rw [List.find?_map]
  rfl

theorem forbidOut_follows : v.Respects (forbidOut call) := by
  refine .get_bind fun s => ?_
  rw [session_call, site_args, find?_isOut_map]
  cases (s.call call).args.find? (·.isOut) with
  | none => exact .pure _
  | some arg => exact .fail _ arg.span

theorem bindOut_follows (he : engine.Follows v) {param : TypeId} :
    v.Follows (bindOut engine function index param arg)
      (bindOut engine function index param (v.argument arg)) := by
  refine .ite (fun _ => .get_bind fun s => ?_) fun _ => .pure _
  have hpointee : (v.session s).types.pointee? param = s.types.pointee? param := rfl
  rw [hpointee]
  cases s.types.pointee? param with
  | none => exact .fail _ arg.span
  | some pointee =>
    refine typeOf_follows.bind fun type => ?_
    refine .ite (fun _ => ?_) fun _ => .pure _
    exact .bind (.typedNode pointee arg.span) fun source =>
      connect_follows he [source]

theorem declaredConversion_follows : v.Follows (declaredConversion function index expected arg)
      (declaredConversion function index expected (v.argument arg)) := by
  have hpassed : ∀ type, v.Follows (passedType arg type) (passedType (v.argument arg) type) := by
    intro type
    exact .ite (fun _ => .build (intern_respans)) fun _ => .pure type
  refine typeOf_follows.bind fun type => ?_
  cases type with
  | none => exact .pure none
  | some type =>
    refine (hpassed type).bind fun actual => ?_
    refine .ite (fun _ => .pure none) fun _ => .get_bind fun s => ?_
    have hconversion : (v.session s).types.conversion? actual expected
        = s.types.conversion? actual expected := rfl
    simp only [hconversion]
    rw [session_types, name_respan]
    cases s.types.conversion? actual expected with
    | some kind => exact .pure _
    | none => exact .fail _ arg.span

theorem variadicConversions_follows {args : List Argument} :
    v.Follows (variadicConversions external args)
      (variadicConversions external (args.map v.argument)) := by
  refine .ite (fun _ => ?_) fun _ => .pure []
  refine .bind (.build (intern_respans)) fun charPointer => .get_bind fun s => ?_
  have hpairs : (args.map v.argument).mapIdx (fun i arg => (i, arg))
      = (args.mapIdx fun i arg => (i, arg)).map (Prod.map id v.argument) := by
    rw [mapIdx_map, map_mapIdx]
    rfl
  simp only [hpairs, session_typeOf, List.filterMap_map]
  exact .pure _

/-- A declared parameter with its position and its argument in a view. -/
def viewDeclared (v : View) (entry : Nat × TypeId × Argument) : Nat × TypeId × Argument :=
  (entry.1, entry.2.1, v.argument entry.2.2)

theorem declaredArgs_map (external : External) (args : List Argument) :
    declaredArgs external (args.map v.argument)
      = (declaredArgs external args).map (viewDeclared v) := by
  rw [declaredArgs, declaredArgs, List.zip_map_right, mapIdx_map, map_mapIdx]
  rfl

theorem convertString_follows (he : engine.Follows v) :
    v.Follows (convertString engine scope arg) (convertString engine scope (v.argument arg)) := by
  refine .bind (.newNode arg.span) fun node => ?_
  refine .bind (.pushCall (.fresh node "cstr" (some arg.node) scope arg.span)) fun call => ?_
  refine .bind (.modifyFlow fun g => v.flow_addObserver g arg.node (.call call)) fun _ => ?_
  exact (he.recalculate call).bind fun _ => .pure node

theorem replaceArg_follows {kind : ConversionKind} {source : NodeId} :
    v.Respects (replaceArg call index kind source node) := by
  refine .bind (.modifyFlow fun g => ?_) fun _ => .modifyCall call fun site => ?_
  · rw [flow_addObserver, flow_removeObserver]
  · have hargs : (site.args.modify index fun arg => { arg with node }).map v.argument
        = (site.args.map v.argument).modify index fun arg => { arg with node } := by
      apply map_listModify
      exact fun _ => rfl
    simp only [View.site, hargs]

theorem convert_follows (he : engine.Follows v) {kind : ConversionKind} :
    v.Respects (convert engine call index kind expected) := by
  refine .get_bind fun s => ?_
  simp only [session_call, site_args, site_scope, List.getElem?_map]
  cases (s.call call).args[index]? with
  | none => exact .pure _
  | some arg =>
    cases kind with
    | stringToPointer => exact (convertString_follows he).bind fun _ => replaceArg_follows
    | nilToPointer | functionToVoid =>
      exact .bind (.typedNode expected arg.span) fun _ => replaceArg_follows

theorem convertArgs_follows (he : engine.Follows v) :
    v.Respects (convertArgs engine call external function) := by
  refine .get_bind fun s => ?_
  simp only [session_call, site_args, declaredArgs_map]
  refine .bind (.mapM (fun entry => ?_) _) fun declared => ?_
  · exact declaredConversion_follows
  refine .bind variadicConversions_follows fun variadic => ?_
  refine .forM_same (fun entry => ?_) _
  exact convert_follows he

theorem foreignInstance_follows : v.Respects (foreignInstance library external) := by
  refine askCache_follows.bind fun found => ?_
  cases found with
  | some id => exact .pure id
  | none =>
    refine .get_bind fun s => ?_
    simp only [session_method, Method.decl_respan, MethodDecl.span_respan]
    refine .bind (.typedNode external.result _) fun node => ?_
    refine .bind (.mapM_same (fun type => .typedNode type _) _) fun params => ?_
    exact fun s => ⟨.ok _ _, .insertForeign rfl _⟩

theorem resolveExternal_follows (he : engine.Follows v) :
    v.Respects (resolveExternal engine call library external function) := by
  refine .get_bind fun s => ?_
  simp only [session_call, site_args, declaredArgs_map]
  refine .bind (.forM (fun entry => ?_) _) fun _ => .get_bind fun s => ?_
  · exact bindOut_follows he
  simp only [session_inputTypes?, session_call, site_signature]
  cases s.inputTypes? call with
  | none => exact .pure _
  | some signature =>
    refine .ite (fun _ => .pure _) fun _ => ?_
    refine (convertArgs_follows he).bind fun _ => ?_
    refine .bind (.modify (fun s => ?_) fun _ => .of_kept rfl) fun _ => ?_
    · have hcalls : (s.calls.modify call.index fun site =>
            { site with signature := s.inputTypes? call }).map v.site
          = (s.calls.map v.site).modify call.index fun site =>
            { site with signature := s.inputTypes? call } := by
        apply map_modify
        exact fun _ => rfl
      simp only [session_inputTypes?]
      rw [View.session, hcalls]
      rfl
    refine foreignInstance_follows.bind fun target => .get_bind fun s => ?_
    simp only [session_call, site_node, site_resolved, session_resultNodes, session_instanceAt]
    refine disconnect_follows.bind fun _ => ?_
    refine .bind (.modifyCall call ?_) fun _ => connect_follows he _
    exact fun _ => rfl

theorem recalculateForeign_follows (he : engine.Follows v) {info : LibraryInfo} :
    v.Respects (recalculateForeign engine call library info) := by
  refine .get_bind fun s => ?_
  simp only [session_call, site_name, site_args, site_span, List.length_map, session_fullName]
  cases info.external? (s.call call).name with
  | none => exact .fail _ _
  | some external =>
    refine .ite (fun _ => ?_) fun _ => .fail _ _
    exact resolveExternal_follows he

end Infer

end Callsite
