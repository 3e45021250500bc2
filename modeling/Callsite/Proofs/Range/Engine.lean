import Callsite.Proofs.Range.Runs

/-!
# The steps of inference on sessions in range

Every step that an engine takes keeps a session in range, if the engine's own steps do.
-/

namespace Callsite

open TypeTable

variable {found : Match} {declared : DeclaredOutput} {type expected library : TypeId} {α : Type}
  {external : External}

open Sizes

/-- What inference steps call back keeps sessions in range. -/
structure Engine.Ranges (engine : Engine) : Prop where
  visit : ∀ {z : Sizes} (scope : ScopeId) {expr : Expr}, z.Holds expr →
    Infer.Stores z (engine.visit scope expr)
  recalculate : ∀ {z : Sizes} (call : CallId), Infer.Stores z (engine.recalculate call)

namespace Infer

variable {z : Sizes} {engine : Engine} {Q : Sizes → α → Prop}

/-! ## Propagation -/

theorem checkOutput_ranges (body : NodeId) {found : TypeId} (hfound : z.Holds found)
    (hdeclared : z.Holds declared) : Ranges z (checkOutput body found declared) := by
  refine .bind (.build fun z' hz => ?_) fun z' restricted hz hrestricted => ?_
  · have hdeclared := hdeclared.mono hz
    exact restrict_ranges _ _ (hfound.mono hz) hdeclared.2.2
  · refine .ite (fun _ => .give hrestricted.2) fun _ => ?_
    exact .get_bind fun s hs hz => .fail _ _

theorem assign_stores (node : NodeId) (htype : z.Holds type) : Stores z (assign node type) := by
  have hset : Stores z (modifyFlow (·.setType node type)) := .setType node htype
  refine .get_bind fun s hs hz => ?_
  have hset := hset.mono hz
  refine .ite (fun _ => ?_) fun _ => hset
  cases (s.flow.get node).type with
  | some current =>
    exact .ite (fun _ => .fail_bind _ _) fun _ => hset
  | none =>
    refine .bind (.takeOutput node) fun z' declared hz' hdeclared => ?_
    have hset := hset.mono hz'
    cases declared with
    | none => exact hset
    | some declared =>
      have htype := htype.mono (le_trans hz hz')
      exact .seq (checkOutput_ranges node htype (holds_some.1 hdeclared)) fun _ _ hz =>
        hset.mono hz

theorem derive_ranges {rule : Rule} {types : List TypeId} (hrule : z.Holds rule)
    (htypes : z.Holds types) : Build.Ranges z (rule.derive types) := by
  have hunion := unionOf_ranges htypes
  cases rule with
  | union => exact hunion
  | pinned type => exact .pure hrule
  | metaclass => exact .bind hunion fun _ _ _ => metaclass_ranges
  | array => exact .bind hunion fun _ _ _ => arrayOf_ranges
  | function params =>
    refine .bind hunion fun z' _ hz => functionOf_ranges ?_
    exact Holds.mono (a := params) hrule hz

theorem change?_ranges (node : NodeId) : Ranges z (change? node) := by
  refine .get_bind fun s hs hz => ?_
  refine .seq (.forM fun type _ => .known type) fun z1 _ hz1 => ?_
  have hnode := hs.nodes node
  have htypes : s.types.sizes.Holds (s.flow.inputTypes node) := by
    intro type htype
    obtain ⟨input, -, hinput⟩ := List.mem_filterMap.1 htype
    exact hs.typeOf input type hinput
  have hderive : ∀ z2, z1 ≤ z2 → Build.Ranges z2 (s.flow.derive node) := by
    intro z2 hz2
    have hz := le_trans hz1 hz2
    unfold FlowGraph.derive
    split
    · refine .pure ?_
      split
      · exact hnode.1.mono hz
      · exact holds_none
    · exact (derive_ranges (hnode.2.mono hz) (htypes.mono hz)).map fun _ _ => holds_some.2
  refine .bind (.build hderive) fun z2 derived hz2 hderived => .give ?_
  split
  · exact holds_none
  · exact hderived

theorem wake_stores (he : engine.Ranges) (observer : Observer) :
    Stores z (wake engine observer) := by
  cases observer with
  | call call => exact .seq (he.recalculate call) fun _ _ _ => .done
  | node node =>
    refine .bind (change?_ranges node) fun z' changed hz hchanged => ?_
    cases changed with
    | none => exact .done
    | some type =>
      exact .seq (assign_stores node (holds_some.1 hchanged)) fun _ _ _ =>
        .get_bind fun _ _ _ => .done

theorem propagate_stores (he : engine.Ranges) (budget : Nat) (waiting : List Observer) :
    Stores z (propagate engine budget waiting) := by
  induction budget generalizing z waiting with
  | zero =>
    cases waiting with
    | nil => exact .done
    | cons observer rest => exact .throw _
  | succ budget ih =>
    cases waiting with
    | nil => exact .done
    | cons observer rest => exact .seq (wake_stores he observer) fun _ _ _ => ih _

theorem deeper_ranges {x : Infer α} (hx : RangesTo z x Q) : RangesTo z (deeper x) Q :=
  .around Session.enterWave (fun s => { s with propagationDepth := s.propagationDepth - 1 })
    (fun _ hs => { hs with }) (fun _ hs => { hs with }) (fun _ => ⟨rfl, rfl⟩) hx

section

variable (he : engine.Ranges)
include he

theorem notify_stores (node : NodeId) : Stores z (notify engine node) := by
  refine .get_bind fun s hs hz => .ite (fun _ => .done) fun _ => ?_
  refine deeper_ranges (.get_bind fun s' hs' hz' => .ite (fun _ => .fail _ _) fun _ => ?_)
  exact propagate_stores he _ _

theorem setType_stores (node : NodeId) (htype : z.Holds type) :
    Stores z (setType engine node type) :=
  .seq (assign_stores node htype) fun _ _ _ => notify_stores he node

theorem update_stores (node : NodeId) : Stores z (update engine node) := by
  refine .bind (change?_ranges node) fun z' changed _ hchanged => ?_
  cases changed with
  | none => exact .done
  | some type => exact setType_stores he node (holds_some.1 hchanged)

theorem connect_stores (node : NodeId) (inputs : List NodeId) :
    Stores z (connect engine node inputs) := by
  refine .seq (.rewire fun g other => ?_) fun _ _ _ => update_stores he node
  exact g.foldl_field inputs (·.types other) fun _ _ => by simp [FlowGraph.types]

end

theorem disconnect_stores (node : NodeId) (inputs : List NodeId) :
    Stores z (disconnect node inputs) :=
  .rewire fun g other => g.foldl_field inputs (·.types other) fun _ _ => by simp [FlowGraph.types]

/-! ## Blocks -/

theorem visitBlock_stores (he : engine.Ranges) (call : CallId) :
    Stores z (visitBlock engine call) := by
  refine .get_bind fun s hs hz => ?_
  have hblock := (hs.call call).2
  dsimp only
  cases hb : (s.call call).block with
  | none => exact .done
  | some block =>
    dsimp only
    cases block.visit with
    | started | finished => exact .done
    | pending =>
      have hvisit : ∀ z' visit, Stores z' (modifyCall call (·.visited visit)) := fun _ _ =>
        .changeCall call fun site => by simp [CallSite.types, Function.comp_def]
      have hresult : Stores s.types.sizes (blockResult engine block (s.call call).span) := by
        rw [blockResult]
        cases hbody : block.body with
        | some body =>
          have hbody := hblock _ (Option.map_eq_some_iff.2 ⟨block, hb, hbody⟩)
          exact he.visit _ (holds_some.1 hbody)
        | none => exact .standardNode _ (by decide)
      exact .seq (hvisit _ _) fun _ _ hz' => .seq (hresult.mono hz') fun z'' _ _ =>
        .seq (hvisit z'' _) fun _ _ _ => .done

theorem declaredInput_stores {owner : TypeId} {free : Bindings} (span : Span) {input : TypeExpr}
    (howner : z.Holds owner) (hfree : z.Holds free) (hinput : z.Holds input) :
    Stores z (declaredInput owner free span input) := by
  refine .bind (.denoting fun z' hz => ?_) fun z' type hz htype => ?_
  · exact denote_ranges span input (howner.mono hz) (hfree.mono hz) (hinput.mono hz)
  · refine .get_bind fun s hs hz' => .ite (fun _ => ?_) fun _ => .typedNode span (htype.mono hz')
    refine .bind (.build fun z'' hz'' => ?_) fun z'' hierarchy _ hhierarchy =>
      .typedNode span hhierarchy
    exact hierarchy_ranges (htype.mono (le_trans hz' hz''))

theorem bindDeclared_stores (he : engine.Ranges) (call : CallId) (param source : NodeId) :
    Stores z (bindDeclared engine call param source) :=
  .seq (.changeCall call fun _ => rfl) fun _ _ _ => connect_stores he param [source]

theorem checkBody_ranges (body : NodeId) (hdeclared : z.Holds declared) :
    Ranges z (checkBody body declared) := by
  refine .bind (.typeOf body) fun z' type hz htype => ?_
  have hdeclared := hdeclared.mono hz
  cases type with
  | some found => exact checkOutput_ranges body (holds_some.1 htype) hdeclared
  | none =>
    refine .seq (.modify fun s hs hz' => ?_) fun z'' _ hz' => .give (hdeclared.2.2.mono hz')
    refine Session.InRange.growsInto { hs with outputs := ?_ } rfl
    refine List.forall_mem_cons.2 ⟨hdeclared.mono hz', fun entry hentry => ?_⟩
    exact hs.outputs entry (List.mem_filter.1 hentry).1

theorem constrainBody_ranges (body : NodeId) (hdeclared : z.Holds declared) :
    Ranges z (constrainBody body declared) :=
  .bind (checkBody_ranges body hdeclared) fun _ _ _ hfree =>
    .seq (.rewire fun g node => by simp [FlowGraph.types]) fun _ _ hz => .give (hfree.mono hz)

theorem matchBlock_ranges (he : engine.Ranges) (call : CallId) (hfound : z.Holds found) :
    RangesTo z (matchBlock engine call found) fun z' matched => z'.Holds matched.1 := by
  refine .get_bind fun s hs hz => ?_
  have hfound := hfound.mono hz
  dsimp only
  rcases hb : (s.types.method found.method).decl.blockParam with _ | declared
  · exact .pure fun _ hz => hfound.mono hz
  rcases (s.types.method found.method).yields with _ | yields
  · exact .pure fun _ hz => hfound.mono hz
  rcases (s.call call).block with _ | block
  · exact .pure fun _ hz => hfound.mono hz
  have hdecl := (holds_method.1 (hs.table.methods found.method).2.1).2.2 declared hb
  rw [holds_blockParam] at hdecl
  refine .seq (.storeAll fun input hinput => ?_) fun z1 sources hz1 => ?_
  · exact declaredInput_stores _ hfound.2.1 hfound.2.2.2 (hdecl.1 input hinput)
  refine .seq (.forM fun edge _ => bindDeclared_stores he call edge.1 edge.2) fun z2 _ hz2 => ?_
  refine .seq (visitBlock_stores he call) fun z3 body hz3 => ?_
  have hz := le_trans hz1 (le_trans hz2 hz3)
  have hfound := hfound.mono hz
  rcases body with _ | body
  · exact .pure fun _ hz => hfound.mono hz
  rcases ho : declared.output with _ | output
  · exact .pure fun _ hz => hfound.mono hz
  · have hdeclared : z3.Holds (⟨output, found.owner, found.free⟩ : DeclaredOutput) :=
      ⟨(hdecl.2 output ho).mono hz, hfound.2.1, hfound.2.2.2⟩
    refine .bind (constrainBody_ranges body hdeclared) fun z4 free hz4 hfree => ?_
    have hfound := hfound.mono hz4
    have hbound : z4.Holds { found with free } :=
      ⟨hfound.1, hfound.2.1, hfound.2.2.1, hfree⟩
    exact .pure fun _ hz => hbound.mono hz

theorem visitYield_stores (he : engine.Ranges) (scope : ScopeId) {args : List Expr} (span : Span)
    (hargs : z.Holds args) : Stores z (visitYield engine scope args span) := by
  refine .seq (.storeAll fun arg harg => he.visit scope (hargs arg harg)) fun z1 values _ => ?_
  refine .get_bind fun s hs hz2 => ?_
  rcases (s.scope scope).call with _ | call
  · exact .standardNode _ (by decide)
  simp only [Option.bind_some]
  rcases (s.call call).block with _ | block
  · exact .standardNode _ (by decide)
  refine .ite (fun _ => ?_) fun _ => .seq (.forM fun edge _ => ?_) fun z3 _ hz3 => ?_
  case refine_2 => exact connect_stores he edge.1 [edge.2]
  all_goals
    refine .seq (.newNode span) fun z4 node _ => .seq (visitBlock_stores he call)
      fun z5 body _ => ?_
    cases body with
    | none => exact .done
    | some body => exact .seq (connect_stores he node [body]) fun _ _ _ => .done

/-! ## Instantiation -/

theorem nested_ranges {x : Infer α} (span : Span) (hx : RangesTo z x Q) :
    RangesTo z (nested span x) Q := by
  have hinside : RangesTo z (insideBody x) Q :=
    .around Session.enterBody (fun s => { s with instantiationDepth := s.instantiationDepth - 1 })
      (fun _ hs => { hs with }) (fun _ hs => { hs with }) (fun _ => ⟨rfl, rfl⟩) hx
  exact .get_bind fun s _ hz => .ite (fun _ => .fail _ _) fun _ => hinside.mono hz

theorem recordParam_stores (call : CallId) (param arg : NodeId) :
    Stores z (recordParam call param arg) :=
  .changeCall call fun _ => rfl

section

variable (he : engine.Ranges)
include he

theorem initVar_stores (scope : ScopeId) (span : Span) (name : String) (value : NodeId) :
    Stores z (initVar engine scope span name value) :=
  .seq (.newNode span) fun _ var _ => .seq (connect_stores he var [value]) fun _ _ _ =>
    .bindVar scope name var

theorem passParam_stores (call : CallId) (scope : ScopeId) (span : Span) (name : String)
    (arg : NodeId) (htype : z.Holds type) :
    Stores z (passParam engine call scope span name arg type) := by
  refine .seq (.typedNode span htype) fun z1 pinned _ => ?_
  refine .seq (.rewire fun g other => by simp [FlowGraph.types]) fun z2 _ _ => ?_
  refine .seq (recordParam_stores call pinned arg) fun z3 _ _ => ?_
  exact .seq (initVar_stores he scope span name pinned) fun _ _ _ => .done

theorem defaultParam_stores (scope : ScopeId) (span : Span) {param : Param}
    (hparam : z.Holds param) : Stores z (defaultParam engine scope span param) := by
  unfold defaultParam
  cases hd : param.default with
  | some default =>
    have hdefault := (holds_param.1 hparam).1 default hd
    exact .seq (he.visit scope hdefault) fun _ value _ => initVar_stores he scope span _ value
  | none => exact initVar_stores he scope span param.name .nil

theorem makeInstance_stores (call : CallId) {selfType : TypeId} (blockInputs : Option (List NodeId))
    (hfound : z.Holds found) (hself : z.Holds selfType) :
    Stores z (makeInstance engine call found selfType blockInputs) := by
  refine .opening (fun _ => rfl) fun s hs hz => ?_
  have hparams := (holds_method.1 (hs.table.methods found.method).2.1).1
  obtain ⟨hmethod, howner, hargs, hfree⟩ := hfound.mono hz
  have hself := hself.mono hz
  generalize (s.types.method found.method).decl = decl at hparams
  refine ⟨⟨hself, howner, hfree, holds_some.2 hmethod⟩,
    fun _ _ => ⟨hmethod, howner, hself, hargs, hfree⟩, fun scope _ id => ?_⟩
  refine .get_bind fun s' _ hz4 => ?_
  refine .seq (.storeAll fun entry hentry => ?_) fun z5 params hz5 => ?_
  · have hpair := (List.of_mem_zip hentry).2
    exact passParam_stores he call scope decl.span _ _
      ((hargs _ (List.of_mem_zip hpair).2).mono hz4)
  refine .seq (.modifyInstance id fun _ => rfl) fun z6 _ hz6 => ?_
  refine .seq (.forM fun param hparam => ?_) fun _ _ _ => .done
  exact defaultParam_stores he scope decl.span ((hparams param (List.mem_of_mem_drop hparam)).mono
    (le_trans hz4 (le_trans hz5 hz6)))

theorem visitBody_stores (id : InstanceId) : Stores z (visitBody engine id) := by
  refine .get_bind fun s hs hz => ?_
  have hresult : ∀ z' body, Stores z' (setBody engine id (s.instanceAt id).node body) :=
    fun z' body => .seq (.modifyInstance id fun _ => rfl) fun _ _ _ => connect_stores he _ [body]
  dsimp only
  rcases hb : (s.types.method (s.instanceAt id).method).decl.body with _ | body
  · exact hresult _ .nil
  rcases (s.instanceAt id).scope with _ | scope
  · exact hresult _ .nil
  · have hbody := (holds_method.1 (hs.table.methods (s.instanceAt id).method).2.1).2.1 body hb
    exact .seq (nested_ranges _ (he.visit scope hbody)) fun z' node _ => hresult z' node

theorem bindParams_stores (call : CallId) (id : InstanceId) :
    Stores z (bindParams engine call id) :=
  .get_bind fun _ _ _ => .forM fun edge _ => .seq (recordParam_stores call _ _) fun _ _ _ =>
    connect_stores he edge.1 [edge.2]

theorem share_stores (call : CallId) (frame : String) {request : Request} {make : Infer InstanceId}
    (hrequest : z.Holds request) (hmake : Stores z make) :
    Stores z (share engine call frame request make) := by
  refine .seq (.askCache request.key) fun z1 cached hz1 => ?_
  cases cached with
  | some id =>
    exact .seq (.within _ (bindParams_stores he call id)) fun z2 _ hz2 =>
      .answer (hrequest.mono (le_trans hz1 hz2)) id
  | none =>
    refine .seq (hmake.mono hz1) fun z2 id hz2 => ?_
    have hrequest := hrequest.mono (le_trans hz1 hz2)
    refine .seq (.insertCache (holds_key hrequest) id) fun z3 _ hz3 => ?_
    exact .seq (.within _ (visitBody_stores he id)) fun z4 _ hz4 =>
      .answer (hrequest.mono (le_trans hz3 hz4)) id

theorem instantiate_stores (call : CallId) {selfType : Option TypeId} (hfound : z.Holds found)
    (hself : z.Holds selfType) : Stores z (instantiate engine call found selfType) := by
  refine .bind (matchBlock_ranges he call hfound) fun z1 matched hz1 hmatched => ?_
  obtain ⟨found, blockInputs⟩ := matched
  refine .get_bind fun s hs hz2 => ?_
  have hfound := hmatched.mono hz2
  have hself := hself.mono (le_trans hz1 hz2)
  have hblock : s.types.sizes.Holds (if (s.types.method found.method).decl.blockParam.isSome then
      (s.call call).block.bind fun b => b.visit.node?.bind s.typeOf else none) := by
    split
    · intro type htype
      obtain ⟨block, -, htype⟩ := Option.bind_eq_some_iff.1 htype
      obtain ⟨node, -, htype⟩ := Option.bind_eq_some_iff.1 htype
      exact hs.typeOf node type htype
    · exact holds_none
  have howner : s.types.sizes.Holds (selfType.getD found.owner) := by
    cases selfType with
    | none => exact hfound.2.1
    | some self => exact holds_some.1 hself
  have hmake := makeInstance_stores he call blockInputs hfound howner
  refine .ite (fun _ => ?_) fun _ => .seq hmake fun _ id _ =>
    .seq (.within _ (visitBody_stores he id)) fun _ _ _ => .done
  exact share_stores he call _ ⟨hfound.1, hfound.2.1, hself, hfound.2.2.1, hblock⟩ hmake

end

/-! ## Foreign calls -/

theorem forbidOut_stores (call : CallId) : Stores z (forbidOut call) := by
  refine .get_bind fun s _ _ => ?_
  cases (s.call call).args.find? (·.isOut) with
  | none => exact .done
  | some arg => exact .fail _ _

theorem bindOut_stores (he : engine.Ranges) (function : String) (index : Nat) (param : TypeId)
    (arg : Argument) : Stores z (bindOut engine function index param arg) := by
  refine .ite (fun _ => .get_bind fun s hs hz => ?_) fun _ => .done
  cases hp : s.types.pointee? param with
  | none => exact .fail _ _
  | some pointee =>
    have hpointee := hs.table.holds_pointee? param pointee hp
    refine .seq (.typeOf arg.node) fun z1 _ hz1 => .ite (fun _ => ?_) fun _ => .done
    exact .seq (.typedNode arg.span (Holds.mono hpointee hz1)) fun _ source _ =>
      connect_stores he arg.node [source]

theorem declaredConversion_ranges (function : String) (index : Nat) (arg : Argument)
    (hexpected : z.Holds expected) : Ranges z (declaredConversion function index expected arg) := by
  refine .bind (.typeOf arg.node) fun z1 type hz1 htype => ?_
  cases type with
  | none => exact .give holds_none
  | some type =>
    have hpassed : Ranges z1 (passedType arg type) :=
      .ite (fun _ => .build fun _ hz => pointerTo_ranges ((holds_some.1 htype).mono hz))
        fun _ => .give (holds_some.1 htype)
    refine .bind hpassed fun z2 actual hz2 _ => .ite (fun _ => .give holds_none) fun _ => ?_
    refine .get_bind fun s _ hz3 => ?_
    dsimp only
    cases s.types.conversion? actual expected with
    | none => exact .fail _ _
    | some kind =>
      have hexpected := hexpected.mono (le_trans hz1 (le_trans hz2 hz3))
      exact .give (holds_some.2 ⟨trivial, trivial, hexpected⟩)

theorem variadicConversions_ranges (external : External) (args : List Argument) :
    Ranges z (variadicConversions external args) := by
  refine .ite (fun _ => ?_) fun _ => .give holds_nil
  refine .reading fun s hs _ => ?_
  refine .bind (.build fun z' hz => ?_) fun z1 charPointer hz1 hpointer => ?_
  · exact pointerTo_ranges ((hs.holds_standard (by decide)).mono hz)
  refine .get_bind fun s' _ hz2 => .give fun conversion hconversion => ?_
  obtain ⟨entry, -, hentry⟩ := List.mem_filterMap.1 hconversion
  dsimp only at hentry
  split at hentry
  · cases hentry
    exact ⟨trivial, trivial, hpointer.mono hz2⟩
  · simp at hentry

theorem convertString_stores (he : engine.Ranges) (scope : ScopeId) (arg : Argument) :
    Stores z (convertString engine scope arg) := by
  refine .seq (.newNode arg.span) fun z1 node _ => ?_
  refine .seq (.pushCall ⟨holds_none, holds_none⟩) fun z2 call _ => ?_
  refine .seq (.rewire fun g other => by simp [FlowGraph.types]) fun z3 _ _ => ?_
  exact .seq (he.recalculate call) fun _ _ _ => .done

theorem convert_stores (he : engine.Ranges) (call : CallId) (index : Nat) (kind : ConversionKind)
    (hexpected : z.Holds expected) : Stores z (convert engine call index kind expected) := by
  refine .get_bind fun s hs hz => ?_
  dsimp only
  cases (s.call call).args[index]? with
  | none => exact .done
  | some arg =>
    have hplace : ∀ z' node, Stores z' (replaceArg call index kind arg.node node) := fun z' node =>
      .seq (.rewire fun g other => by simp [FlowGraph.types]) fun _ _ _ =>
        .changeCall call fun _ => rfl
    have hexpected := hexpected.mono hz
    cases kind with
    | stringToPointer =>
      exact .seq (convertString_stores he (s.call call).scope arg) fun z' node _ => hplace z' node
    | nilToPointer | functionToVoid =>
      exact .seq (.typedNode arg.span hexpected) fun z' node _ => hplace z' node

theorem convertArgs_stores (he : engine.Ranges) (call : CallId) (function : String)
    (hexternal : z.Holds external) : Stores z (convertArgs engine call external function) := by
  refine .get_bind fun s hs hz => ?_
  refine .bind (.mapM fun entry hentry => ?_) fun z1 declared hz1 hconversions => ?_
  · obtain ⟨i, hi, rfl⟩ := List.mem_mapIdx.1 hentry
    have hparam := (List.of_mem_zip (List.getElem_mem hi)).1
    exact declaredConversion_ranges function i _ ((hexternal.1 _ hparam).2.mono hz)
  refine .bind (variadicConversions_ranges external _) fun z2 variadic hz2 hvariadic => ?_
  refine .forM fun entry hentry => convert_stores he call entry.1 entry.2.1 ?_
  have hentry : z2.Holds entry := by
    rcases List.mem_append.1 hentry with hentry | hentry
    · obtain ⟨conversion, hmem, hsome⟩ := List.mem_filterMap.1 hentry
      exact (hconversions conversion hmem entry hsome).mono hz2
    · exact hvariadic entry hentry
  exact hentry.2.2

theorem foreignInstance_stores (hlibrary : z.Holds library) (hexternal : z.Holds external) :
    Stores z (foreignInstance library external) := by
  have hargs : z.Holds (external.params.map (·.2)) := by
    intro type htype
    obtain ⟨param, hparam, rfl⟩ := List.mem_map.1 htype
    exact (hexternal.1 param hparam).2
  have hkey : z.Holds (⟨external.method, library, external.params.map (·.2), none⟩ : InstanceKey) :=
    ⟨hexternal.2.2, hlibrary, hargs, holds_none⟩
  have hmade : z.Holds (external.method, library, library, external.params.map (·.2),
      (NameMap.empty : Bindings)) :=
    ⟨hexternal.2.2, hlibrary, hlibrary, hargs, holds_emptyMap⟩
  refine .seq (.askCache _) fun z1 found hz1 => ?_
  cases found with
  | some id => exact .done
  | none =>
    refine .get_bind fun s hs hz2 => ?_
    have hz2 := le_trans hz1 hz2
    refine .seq (.typedNode _ (hexternal.mono hz2).2.1) fun z3 node hz3 => ?_
    have hz3 := le_trans hz2 hz3
    refine .seq (.storeAll fun type htype => .typedNode _ ((hargs type htype).mono hz3)) ?_
    intro z4 params hz4
    have hz4 := le_trans hz3 hz4
    refine .seq (.pushInstance (hmade.mono hz4)) fun z5 id hz5 => ?_
    exact .seq (.insertCache (hkey.mono (le_trans hz4 hz5)) id) fun _ _ _ => .done

theorem resolveExternal_stores (he : engine.Ranges) (call : CallId) (function : String)
    (hlibrary : z.Holds library) (hexternal : z.Holds external) :
    Stores z (resolveExternal engine call library external function) := by
  refine .get_bind fun s hs hz => ?_
  refine .seq (.forM fun entry _ => bindOut_stores he function entry.1 entry.2.1 entry.2.2) ?_
  refine fun z1 _ hz1 => .get_bind fun s1 hs1 hz1' => ?_
  have hz1 := le_trans hz (le_trans hz1 hz1')
  cases s1.inputTypes? call with
  | none => exact .done
  | some signature =>
    refine .ite (fun _ => .done) fun _ => ?_
    refine .seq (convertArgs_stores he call function (hexternal.mono hz1)) fun z2 _ hz2 => ?_
    have hz2 := le_trans hz1 hz2
    refine .seq (.modify fun s2 hs2 _ => ?_) fun z3 _ hz3 => ?_
    · -- the signature is read from the session that it is stored in
      have hmodify := RangesTo.modifyCall (z := s2.types.sizes)
        (f := fun site => { site with signature := s2.inputTypes? call }) call
        (fun _ hz _ hsite => ⟨(hs2.inputTypes? call).mono hz, hsite.2⟩) s2 hs2 (le_refl _)
      exact hmodify.1
    have hz3 := le_trans hz2 hz3
    refine .seq (foreignInstance_stores (hlibrary.mono hz3) (hexternal.mono hz3)) ?_
    refine fun z4 target _ => .get_bind fun s4 _ _ => ?_
    refine .seq (disconnect_stores _ _) fun z5 _ _ => ?_
    exact .seq (.changeCall call fun _ => rfl) fun _ _ _ => connect_stores he _ _

theorem recalculateForeign_stores (he : engine.Ranges) (call : CallId) {info : LibraryInfo}
    (hlibrary : z.Holds library) (hinfo : z.Holds info.externals) :
    Stores z (recalculateForeign engine call library info) := by
  refine .get_bind fun s _ hz => ?_
  dsimp only
  cases hx : info.external? (s.call call).name with
  | none => exact .fail _ _
  | some external =>
    refine .ite (fun _ => ?_) fun _ => .fail _ _
    have hexternal := hinfo external (List.mem_of_find?_eq_some hx)
    exact resolveExternal_stores he call _ (hlibrary.mono hz) (hexternal.mono hz)

end Infer

end Callsite
