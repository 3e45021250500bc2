import Callsite.Proofs.Engine.Recalculation
import Callsite.Proofs.Range.Engine

/-!
# Whole runs on sessions in range

Calls are resolved and programs are walked through.  Every step keeps a session in range, and so
does an engine that is built up from any supply of fuel, by induction on the fuel.
-/

namespace Callsite

open TypeTable

variable {args : List TypeId} {owner : TypeId} {selfType receiver : Option TypeId}

open Sizes

namespace Infer

variable {z : Sizes} {engine : Engine} {α : Type} {Q : Sizes → α → Prop}

theorem failUnresolved_ranges (call : CallId) (owner : TypeId) (name : String) (set : MatchSet) :
    RangesTo z (failUnresolved call owner name set : Infer α) Q :=
  .get_bind fun _ _ _ => .throw _

/-! ## Generated methods -/

theorem defineConstructors_ranges (call : CallId) {metaType : TypeId} (hmeta : z.Holds metaType)
    (hargs : z.Holds args) : Ranges z (defineConstructors call metaType args) := by
  refine .get_bind fun s hs hz => ?_
  have hmeta := hmeta.mono hz
  have hcls : s.types.sizes.Holds (s.types.instanceType metaType) :=
    hs.table.holds_instanceType hmeta
  generalize s.types.instanceType metaType = cls at hcls
  refine .bind (.build fun z' hz' => ?_) fun z1 inits hz1 hinits => ?_
  · exact lookupMatches_ranges _ _ (hcls.mono hz') (hargs.mono (le_trans hz hz'))
  have hmeta := hmeta.mono hz1
  refine .ite (fun _ => ?_) fun _ => .get_bind fun s' hs' hz2 => ?_
  · refine .bind (.build fun z' hz' => .mapM fun z'' hz'' init hinit => ?_)
      fun z2 found hz2 hfound => ?_
    · have hz := le_trans hz' hz''
      exact constructorFor_ranges _ (hmeta.mono hz) (hcls.mono (le_trans hz1 hz))
        ((hinits init hinit).mono hz)
    · exact .give hfound
  have hallocator : ∀ z', z1 ≤ z' →
      Ranges z' (build (register metaType allocatorDecl .constructor) >>= fun method =>
        pure (MatchSet.complete [⟨method, metaType, [], .empty, .constructor⟩] metaType)) := by
    intro z' hz'
    have hmeta := hmeta.mono hz'
    refine .bind (.build fun z'' hz'' => ?_) fun z'' method hz'' hmethod => .give ?_
    · exact register_ranges _ (hmeta.mono hz'') holds_allocatorDecl
    · have hmatch : z''.Holds (⟨method, metaType, [], .empty, .constructor⟩ : Match) :=
        ⟨hmethod, hmeta.mono hz'', holds_nil, holds_emptyMap⟩
      exact holds_cons.2 ⟨hmatch, holds_nil⟩
  refine .ite (fun _ => ?_) fun _ => .ite (fun _ => .fail_bind _ _) fun _ => hallocator _ hz2
  refine .seq (failUnresolved_ranges (Q := fun _ _ => True) call cls _ inits) fun z3 _ hz3 => ?_
  exact .ite (fun _ => .fail_bind _ _) fun _ => hallocator z3 (le_trans hz2 hz3)

theorem defineForwarder_ranges (call : CallId) (name : String) (howner : z.Holds owner)
    (hargs : z.Holds args) : Ranges z (defineForwarder call owner name args) := by
  refine .get_bind fun s hs hz => ?_
  have howner := howner.mono hz
  refine .bind (.build fun z' hz' => ?_) fun z1 method hz1 hmethod => .give ?_
  · exact register_ranges _ (howner.mono hz') (holds_forwarderDecl _ _)
  · have hmatch : z1.Holds (⟨method, owner, args, .empty, .methodMissing⟩ : Match) :=
      ⟨hmethod, howner.mono hz1, hargs.mono (le_trans hz hz1), holds_emptyMap⟩
    exact holds_cons.2 ⟨hmatch, holds_nil⟩

/-! ## Resolving on one owner -/

theorem fallbackMatches_ranges (call : CallId) (name : String) {own : MatchSet}
    (howner : z.Holds owner) (hargs : z.Holds args) (hown : z.Holds own) :
    Ranges z (fallbackMatches call owner name args own) := by
  refine .get_bind fun s hs hz => ?_
  refine .bind (.build fun z' hz' => ?_) fun z1 program hz1 hprogram => .get_bind fun s' _ hz2 => ?_
  · have hstandard : s.types.sizes.Holds TypeId.program := hs.holds_standard (by decide)
    exact lookupMatches_ranges _ _ (hstandard.mono hz') (hargs.mono (le_trans hz hz'))
  have hz := le_trans hz (le_trans hz1 hz2)
  refine .ite (fun _ => defineForwarder_ranges call name (howner.mono hz) (hargs.mono hz))
    fun _ => ?_
  exact .ite (fun _ => .give (hprogram.mono hz2)) fun _ => .give (hown.mono hz)

theorem findMatches_ranges (call : CallId) (name : String) (howner : z.Holds owner) :
    Ranges z (findMatches call owner name) := by
  refine .get_bind fun s hs hz => ?_
  have howner := howner.mono hz
  have hargs := hs.argTypes call
  refine .bind (.build fun z' hz' => ?_) fun z1 own hz1 hown => ?_
  · exact lookupMatches_ranges _ _ (howner.mono hz') (hargs.mono hz')
  refine .ite (fun _ => .give hown) fun _ => .get_bind fun s' _ hz2 => ?_
  have hz := le_trans hz1 hz2
  refine .ite (fun _ => defineConstructors_ranges call (howner.mono hz) (hargs.mono hz)) fun _ => ?_
  refine .ite (fun _ => ?_) fun _ => .give (hown.mono hz2)
  exact fallbackMatches_ranges call name (howner.mono hz) (hargs.mono hz) (hown.mono hz2)

theorem settle_stores (he : engine.Ranges) (call : CallId) (owner : TypeId) (name : String)
    {set : MatchSet} (hself : z.Holds selfType) (hset : z.Holds set) :
    Stores z (settle engine call owner selfType name set) := by
  refine .ite (fun _ => ?_) fun _ => .ite (fun _ => ?_) fun _ => ?_
  · exact .storeAll fun found hfound => instantiate_stores he call (hset found hfound) hself
  · exact .seq (.changeCall call fun _ => rfl) fun _ _ _ => .done
  · exact failUnresolved_ranges call set.owner name set

theorem resolveConcrete_stores (he : engine.Ranges) (call : CallId) (name : String)
    (hself : z.Holds selfType) (howner : z.Holds owner) :
    Stores z (resolveConcrete engine call selfType name owner) :=
  .bind (findMatches_ranges call name howner) fun _ _ hz hset =>
    settle_stores he call owner name (hself.mono hz) hset

theorem resolveBelow_stores (he : engine.Ranges) (call : CallId) (name : String) {base : TypeId}
    (onMeta : Bool) (hself : z.Holds selfType) (hbase : z.Holds base) :
    Stores z (resolveBelow engine call selfType name base onMeta) := by
  refine .seq (.watch call base) fun z1 _ hz1 => ?_
  refine .bind (.build fun z' hz' => ?_) fun z2 hierarchy hz2 hhierarchy => ?_
  · exact hierarchy_ranges (hbase.mono (le_trans hz1 hz'))
  refine .get_bind fun s hs hz3 => ?_
  have hself := hself.mono (le_trans hz1 (le_trans hz2 hz3))
  have hclasses := hs.table.holds_concreteTypes (hhierarchy.mono hz3)
  refine .seq (.storeAll fun cls hcls => ?_) fun _ _ _ => .done
  have hcls : s.types.sizes.Holds cls := hclasses cls hcls
  cases onMeta with
  | false => exact resolveConcrete_stores he call name hself hcls
  | true =>
    exact .bind (.build fun _ hz' => metaclass_ranges (hcls.mono hz')) fun z' owner hz' howner =>
      resolveConcrete_stores he call name (hself.mono hz') howner

theorem resolveOn_stores (he : engine.Ranges) (call : CallId) (name : String)
    (hself : z.Holds selfType) (howner : z.Holds owner) :
    Stores z (resolveOn engine call selfType name owner) := by
  refine .get_bind fun s hs hz => ?_
  have hself := hself.mono hz
  have howner := howner.mono hz
  have hshape := hs.table.shapes owner
  split
  · next base hs' =>
    rw [hs'] at hshape
    exact resolveBelow_stores he call name false hself hshape
  · next base hs' =>
    rw [hs'] at hshape
    exact resolveBelow_stores he call name true hself hshape
  · refine .bind (findMatches_ranges call name howner) fun z1 set hz1 hset => ?_
    refine .get_bind fun s' _ hz2 => ?_
    have hz := le_trans hz1 hz2
    have hself := hself.mono hz
    refine .ite (fun _ => ?_) fun _ => settle_stores he call owner name hself (hset.mono hz2)
    refine .seq (resolveBelow_stores he call name false hself (howner.mono hz)) fun _ _ _ => ?_
    exact .ite (fun _ => failUnresolved_ranges call owner name set) fun _ => .done

theorem superOwner?_ranges : Build.Ranges z (superOwner? owner) := by
  refine .get_bind fun t ht hz => ?_
  split
  · next instances _ =>
    have hparent := ht.holds_parent? instances
    split
    · next parent hp =>
      exact (metaclass_ranges (hparent parent hp)).map fun _ _ => holds_some.2
    · exact .pure holds_none
  · exact .pure (ht.holds_parent? _)
  · exact .pure (ht.holds_parent? _)

theorem resolveSuper_stores (he : engine.Ranges) (call : CallId) :
    Stores z (resolveSuper engine call) := by
  refine .get_bind fun s hs hz => ?_
  have hscope := hs.scope (s.bodyScope (s.call call).scope)
  dsimp only
  cases (s.scope (s.bodyScope (s.call call).scope)).method with
  | none => exact .fail _ _
  | some id =>
    refine .bind (.build fun _ _ => superOwner?_ranges) fun z1 parent hz1 hparent => ?_
    cases parent with
    | none => exact .fail _ _
    | some parent =>
      exact resolveOn_stores he call _ (holds_some.2 (hscope.1.mono hz1)) (holds_some.1 hparent)

/-! ## One resolution -/

theorem release_stores (call : CallId) (body : Option NodeId) : Stores z (release call body) := by
  have hwatch : ∀ z', Stores z' (modify fun s => { s with watch := s.watch.removeCall call }) :=
    fun z' => .modify fun s hs _ => Session.InRange.growsInto { hs with } rfl
  cases body with
  | none => exact hwatch z
  | some body =>
    refine .seq (.rewire fun g other => by simp [FlowGraph.types]) fun _ _ _ => ?_
    exact .seq (.takeOutput body) fun z' _ _ => hwatch z'

theorem reopen_stores (call : CallId) {signature : List TypeId} (hsignature : z.Holds signature) :
    Stores z (reopen call signature) := by
  refine .get_bind fun s hs hz => ?_
  refine .seq (.modifyCall call fun _ hz' _ hsite => ?_) fun _ _ _ => .seq (disconnect_stores _ _)
    fun _ _ _ => .seq (.rewire fun g other => ?_) fun _ _ _ => release_stores call _
  · exact ⟨holds_some.2 (hsignature.mono (le_trans hz hz')), hsite.2⟩
  · exact g.foldl_field _ (·.types other) fun _ _ => by simp [FlowGraph.types]

theorem expandBlockArg_stores (call : CallId) : Stores z (expandBlockArg call) := by
  refine .get_bind fun s hs hz => ?_
  dsimp only
  rcases (s.call call).blockArg with _ | blockArg
  · exact .done
  simp only [Option.bind_some]
  rcases s.typeOf blockArg with _ | type
  · exact .done
  dsimp only
  split
  · refine .seq (.childScope _) fun z1 scope _ => .seq (.bindVar scope "#fn" blockArg)
      fun z2 _ _ => ?_
    refine .seq (.storeAll fun name _ => .newVar scope _ name) fun z3 params _ => ?_
    refine .modifyCall call fun z' _ site hsite => ⟨hsite.1, ?_⟩
    exact holds_some.2 (holds_some.2 (holds_blockArgBody _ _))
  · exact .fail _ _

theorem watchArguments_stores (call : CallId) : Stores z (watchArguments call) := by
  refine .get_bind fun s hs hz => .ite (fun _ => .forM fun member _ => ?_) fun _ => .done
  cases s.types.shape member with
  | hierarchy base => exact .watch call base
  | _ => exact .done

section

variable (he : engine.Ranges) (call : CallId) (hreceiver : z.Holds receiver)
include he hreceiver

theorem resolve_stores : Stores z (resolve engine call receiver) := by
  refine .get_bind fun s hs hz => ?_
  cases receiver with
  | some type =>
    have hmembers := hs.table.holds_members ((holds_some.1 hreceiver).mono hz)
    refine .seq (.storeAll fun owner howner => ?_) fun _ _ _ => .done
    exact resolveOn_stores he call _ holds_none (hmembers owner howner)
  | none =>
    refine .ite (fun _ => resolveSuper_stores he call) fun _ => ?_
    exact resolveOn_stores he call _ holds_none (hs.scope _).1

theorem resolveFor_stores {signature : List TypeId} (hsignature : z.Holds signature) :
    Stores z (resolveFor engine call receiver signature) := by
  refine .seq (reopen_stores call hsignature) fun z1 _ hz1 => ?_
  refine .seq (expandBlockArg_stores call) fun z2 _ hz2 => ?_
  refine .seq (watchArguments_stores call) fun z3 _ hz3 => ?_
  have hz3 := le_trans hz1 (le_trans hz2 hz3)
  refine .seq (resolve_stores he call (hreceiver.mono hz3)) fun z4 targets _ => ?_
  refine .get_bind fun s hs _ => .ite (fun _ => ?_) fun _ => .done
  exact .seq (.changeCall call fun _ => rfl) fun _ _ _ => connect_stores he _ _

theorem recalculateInputs_stores : Stores z (recalculateInputs engine call receiver) := by
  refine .get_bind fun s hs hz => ?_
  refine .ite (fun _ => setType_stores he _ (hs.holds_standard (by decide))) fun _ => ?_
  cases hi : s.inputTypes? call with
  | none => exact .done
  | some signature =>
    exact .ite (fun _ => .done) fun _ =>
      resolveFor_stores he call (hreceiver.mono hz) (hs.inputTypes? call signature hi)

theorem recalculatePlain_stores : Stores z (recalculatePlain engine call receiver) := by
  have hinputs := recalculateInputs_stores he call hreceiver
  exact .get_bind fun s hs hz => .ite
    (fun _ => .seq (forbidOut_stores call) fun _ _ hz1 => hinputs.mono (le_trans hz hz1))
    fun _ => hinputs.mono hz

end

theorem recalculateWith_stores (he : engine.Ranges) (call : CallId) :
    Stores z (recalculateWith engine call) := by
  refine .get_bind fun s hs hz => ?_
  have hreceiver : s.types.sizes.Holds ((s.call call).receiver.bind s.typeOf) := by
    intro type htype
    obtain ⟨node, -, hnode⟩ := Option.bind_eq_some_iff.1 htype
    exact hs.typeOf node type hnode
  cases hr : (s.call call).receiver.bind s.typeOf with
  | none => exact recalculatePlain_stores he call holds_none
  | some type =>
    rw [hr] at hreceiver
    have hshape := hs.table.shapes type
    refine .seq (.known type) fun z1 _ hz1 => ?_
    have hreceiver := hreceiver.mono hz1
    cases hsh : s.types.shape type with
    | library info =>
      rw [hsh] at hshape
      have hinfo : s.types.sizes.Holds info.externals := hshape
      exact recalculateForeign_stores he call (holds_some.1 hreceiver) (hinfo.mono hz1)
    | _ => exact recalculatePlain_stores he call hreceiver

theorem noticeSubclass_stores (he : engine.Ranges) (cls : TypeId) :
    Stores z (noticeSubclass engine cls) := by
  refine .get_bind fun s hs hz => .forM fun call _ => ?_
  refine .seq (.modifyCall call fun _ _ _ hsite => ⟨holds_none, hsite.2⟩) fun _ _ _ => ?_
  exact he.recalculate call

/-! ## Walking through expressions -/

theorem denoteIn_ranges (scope : ScopeId) (span : Span) {type : TypeExpr} (htype : z.Holds type) :
    Ranges z (denoteIn scope span type) := by
  refine .get_bind fun s hs hz => .denoting fun z' hz' => ?_
  obtain ⟨hself, -, hfree, -⟩ := (hs.scope scope).mono hz'
  exact denote_ranges span type hself hfree (htype.mono (le_trans hz hz'))

theorem declareVar_stores (scope : ScopeId) (name : String) (span : Span) :
    Stores z (declareVar scope name span) := by
  refine .get_bind fun s hs hz => ?_
  cases s.findVar? scope name with
  | some node => exact .done
  | none => exact .newVar scope span name

theorem derived_stores (he : engine.Ranges) {rule : Rule} (span : Span) (inputs : List NodeId)
    (hrule : z.Holds rule) : Stores z (derived engine rule span inputs) :=
  .seq (.ruledNode span hrule) fun _ node _ => .seq (connect_stores he node inputs)
    fun _ _ _ => .done

theorem visitArg_stores (he : engine.Ranges) (scope : ScopeId) {arg : Expr} (harg : z.Holds arg) :
    Stores z (visitArg engine scope arg) := by
  unfold visitArg
  split
  · exact .seq (declareVar_stores scope _ _) fun _ _ _ => .done
  · exact .seq (he.visit scope harg) fun _ _ _ => .done

theorem superArgs_stores (he : engine.Ranges) (scope : ScopeId) (span : Span) :
    Stores z (superArgs engine scope span) := by
  refine .get_bind fun s hs hz => ?_
  dsimp only
  cases (s.scope (s.bodyScope scope)).method with
  | none => exact .done
  | some method =>
    refine .storeAll fun var _ => .seq (derived_stores he span [var] ?_) fun _ _ _ => .done
    trivial

theorem openBlock_ranges (scope : ScopeId) (span : Span) {block : Block} (hblock : z.Holds block) :
    RangesTo z (openBlock scope span block) fun z b => z.Holds b.body := by
  refine .seq (.childScope scope) fun z1 inner hz1 => ?_
  refine .seq (.storeAll fun name _ => .newVar inner span name) fun z2 params hz2 => ?_
  exact .pure fun _ hz => (holds_block.1 hblock).mono (le_trans hz1 (le_trans hz2 hz))

theorem enterCall_stores (he : engine.Ranges) (scope : ScopeId) {call : Call} (span : Span)
    (receiver : Option NodeId) (args : List Argument) (hcall : z.Holds call) :
    Stores z (enterCall engine scope call span receiver args) := by
  obtain ⟨-, -, hblock, hblockArg⟩ := holds_call.1 hcall
  refine .bind (.optionMapM fun block hmem => openBlock_ranges scope span (hblock block hmem)) ?_
  intro z1 block hz1 hopened
  refine .seq (.optionMapM fun e hx => he.visit scope ((hblockArg e hx).mono hz1)) ?_
  refine fun z2 blockArg hz2 => .seq (.newNode span) fun z3 node hz3 => ?_
  have hbody : z3.Holds (block.map (·.body)) := by
    intro body hbody
    obtain ⟨b, hb, rfl⟩ := Option.map_eq_some_iff.1 hbody
    exact (hopened b hb).mono (le_trans hz2 hz3)
  refine .seq (.pushCall ⟨holds_none, hbody⟩) fun z4 id _ => ?_
  refine .seq (.rewire fun g other => ?_) fun z5 _ _ => ?_
  · exact g.foldl_field _ (·.types other) fun _ _ => by simp [FlowGraph.types]
  · exact .seq (he.recalculate id) fun _ _ _ => .done

theorem visitCall_stores (he : engine.Ranges) (scope : ScopeId) {call : Call} (span : Span)
    (hcall : z.Holds call) : Stores z (visitCall engine scope call span) := by
  obtain ⟨hreceiver, hargs, -⟩ := holds_call.1 hcall
  refine .seq (.optionMapM fun e hx => he.visit scope (hreceiver e hx)) fun z1 receiver hz1 => ?_
  refine .ite (fun _ => .seq (superArgs_stores he scope span) fun z2 args hz2 => ?_)
    fun _ => .seq (.storeAll fun arg harg => ?_) fun z2 args hz2 => ?_
  case refine_2 => exact visitArg_stores he scope ((hargs arg harg).mono hz1)
  all_goals exact enterCall_stores he scope span _ _ (hcall.mono (le_trans hz1 hz2))

/-! ## Declarations -/

theorem visitMethod_stores (scope : ScopeId) {decl : MethodDecl} (hdecl : z.Holds decl) :
    Stores z (visitMethod scope decl) := by
  have howner : Ranges z (methodOwner scope decl.onSelf) := by
    refine .get_bind fun s hs hz => ?_
    have houter := (hs.scope scope).2.1
    exact .ite (fun _ => .build fun _ hz' => metaclass_ranges (houter.mono hz')) fun _ =>
      .give houter
  refine .bind howner fun z1 owner hz1 howner => .seq (.build fun z2 hz2 => ?_) fun _ _ _ => .done
  exact register_ranges _ (howner.mono hz2) (hdecl.mono (le_trans hz1 hz2))

theorem enterClass_stores (he : engine.Ranges) {decl : ClassDecl} {parent : Option TypeId}
    (hbody : z.Holds decl.body) (hparent : z.Holds parent) :
    Stores z (enterClass engine decl parent) := by
  refine .bind (.build fun z' hz' => ?_) fun z1 declared hz1 hdeclared => ?_
  · exact declareClass_ranges _ _ _ (hparent.mono hz')
  obtain ⟨cls, created⟩ := declared
  have hcls := hdeclared.1
  refine .bind (.build fun _ hz => metaclass_ranges (hcls.mono hz)) fun z2 metaType hz2 hmeta => ?_
  refine .seq (.pushScope ⟨hmeta, hcls.mono hz2, holds_emptyMap, holds_none⟩ rfl)
    fun z3 inner hz3 => ?_
  have hz3 := le_trans hz1 (le_trans hz2 hz3)
  refine .seq (.forM fun expr hexpr => ?_) fun _ _ _ =>
    .ite (fun _ => noticeSubclass_stores he cls) fun _ => .done
  exact .seq (he.visit inner ((hbody expr hexpr).mono hz3)) fun _ _ _ => .done

theorem visitClass_stores (he : engine.Ranges) (scope : ScopeId) {decl : ClassDecl} (span : Span)
    (hdecl : z.Holds decl) : Stores z (visitClass engine scope decl span) := by
  obtain ⟨hsuperclass, hbody⟩ := holds_class.1 hdecl
  refine .bind
    (.optionMapM fun type htype => denoteIn_ranges scope span (hsuperclass type htype)) ?_
  intro z1 parent hz1 hparent
  have hparent : z1.Holds parent := hparent
  refine .get_bind fun s hs hz2 => ?_
  have henter := enterClass_stores he (hbody.mono hz1) hparent
  exact .ite (fun _ => .seq (.forM fun type _ => .known type) fun _ _ hz3 =>
    henter.mono (le_trans hz2 hz3)) fun _ => henter.mono hz2

theorem denoteFields_ranges {library : TypeId} (span : Span) {fields : List (String × TypeExpr)}
    (hlibrary : z.Holds library) (hfields : z.Holds fields) :
    Ranges z (denoteFields library span fields) := by
  refine .mapM fun field hfield => ?_
  refine .bind (.denoting fun z' hz => ?_) fun _ _ _ htype => .give ⟨trivial, htype⟩
  exact denote_ranges span field.2 (hlibrary.mono hz) holds_emptyMap
    ((hfields field hfield).2.mono hz)

theorem visitLibrary_stores {decl : LibraryDecl} (span : Span) (hdecl : z.Holds decl) :
    Stores z (visitLibrary decl span) := by
  refine .bind (.build fun _ _ => declareLibrary_ranges decl.name) ?_
  intro z1 library hz1 hlibrary
  obtain ⟨hfunctions, hstructs⟩ := holds_library.1 (hdecl.mono hz1)
  refine .seq (.forM fun struct hstruct => ?_) fun z2 _ hz2 => .forM fun function hfunction => ?_
  · refine .bind (denoteFields_ranges span hlibrary (hstructs struct hstruct)) ?_
    intro z' fields hz' hfields
    refine .seq (.build fun z'' hz'' => ?_) fun _ _ _ => .done
    exact declareStruct_ranges _ (hlibrary.mono (le_trans hz' hz'')) (hfields.mono hz'')
  · have hlibrary := hlibrary.mono hz2
    have hparams := (hfunctions function hfunction).1.mono hz2
    have hresult := (hfunctions function hfunction).2.mono hz2
    refine .bind (denoteFields_ranges span hlibrary hparams) fun z' params hz' hparams => ?_
    refine .bind (.denoting fun z'' hz'' => ?_) fun z'' result hz'' hresult => ?_
    · have hz := le_trans hz' hz''
      exact denoteResult_ranges span _ (hlibrary.mono hz) holds_emptyMap (hresult.mono hz)
    · refine .seq (.build fun z3 hz3 => ?_) fun _ _ _ => .done
      exact declareExternal_ranges _ _ (hlibrary.mono (le_trans hz' (le_trans hz'' hz3)))
        (hparams.mono (le_trans hz'' hz3)) (hresult.mono hz3)

/-! ## Expressions -/

theorem functionParam_ranges (outer inner : ScopeId) (span : Span) {param : Param}
    (hparam : z.Holds param) : Ranges z (functionParam outer inner span param) := by
  have hbind : ∀ z' type, z'.Holds type →
      Ranges z' (typedVar inner span param.name type) := fun z' type htype =>
    .seq (.typedNode span htype) fun _ node hz =>
      .seq (.bindVar inner param.name node) fun _ _ hz' => .give (htype.mono (le_trans hz hz'))
  unfold functionParam
  cases hr : param.restriction with
  | some restriction =>
    have hrestriction := (holds_param.1 hparam).2 restriction hr
    exact .bind (denoteIn_ranges outer span hrestriction) fun z' type _ => hbind z' type
  | none => exact .reading fun s hs _ => hbind _ _ (hs.holds_standard (by decide))

theorem visitWith_stores (he : engine.Ranges) (scope : ScopeId) {expr : Expr}
    (hexpr : z.Holds expr) : Stores z (visitWith engine scope expr) := by
  have hform := holds_form.1 hexpr
  obtain ⟨form, span⟩ := expr
  have hparts := holds_parts.1 hform
  have hvisit : ∀ e : Expr, z.Holds e → Stores z (engine.visit scope e) := fun e => he.visit scope
  cases form with
  | nil | bool | int | char | str | symbol => exact .standardNode span (by decide)
  | array items =>
    exact .seq (.storeAll fun item hitem => hvisit item (hparts item hitem)) fun _ nodes _ =>
      derived_stores he span nodes trivial
  | var name =>
    refine .get_bind fun s hs hz => ?_
    cases s.findVar? scope name with
    | some var => exact derived_stores he span [var] trivial
    | none => exact visitCall_stores he scope span (holds_plain.2 ⟨holds_none, holds_nil⟩)
  | selfRef => exact .get_bind fun s hs _ => .typedNode span (hs.scope scope).1
  | assign target value =>
    refine .seq (hvisit value hparts) fun _ value _ => ?_
    refine .seq (declareVar_stores scope target span) fun _ var _ => ?_
    exact .seq (connect_stores he var [value]) fun _ _ _ => .done
  | out name => exact .fail _ _
  | path type =>
    refine .bind (denoteIn_ranges scope span hparts) fun z1 type _ htype => ?_
    exact .bind (.build fun _ hz => metaclass_ranges (htype.mono hz)) fun _ _ _ hmeta =>
      .typedNode span hmeta
  | call call => exact visitCall_stores he scope span hparts
  | yield args => exact visitYield_stores he scope span hparts
  | seq items =>
    refine .seq (.storeAll fun item hitem => hvisit item (hparts item hitem)) fun _ nodes _ => ?_
    cases nodes.getLast? with
    | some last => exact .done
    | none => exact .standardNode span (by decide)
  | branch test yes no =>
    refine .seq (hvisit test hparts.1) fun z1 _ hz1 => ?_
    refine .seq ((hvisit yes hparts.2.1).mono hz1) fun z2 yes hz2 => ?_
    exact .seq ((hvisit no hparts.2.2).mono (le_trans hz1 hz2)) fun z3 no _ =>
      derived_stores he span [yes, no] trivial
  | method decl =>
    exact .seq (visitMethod_stores scope hparts) fun _ _ _ => .standardNode span (by decide)
  | classDecl decl =>
    exact .seq (visitClass_stores he scope span hparts) fun _ _ _ => .standardNode span (by decide)
  | library decl =>
    exact .seq (visitLibrary_stores span hparts) fun _ _ _ => .standardNode span (by decide)
  | primitive type =>
    exact .bind (denoteIn_ranges scope span hparts) fun _ _ _ htype => .typedNode span htype
  | allocate type =>
    cases type with
    | none =>
      exact .get_bind fun s hs _ =>
        .typedNode span (hs.table.holds_instanceType (hs.scope scope).1)
    | some type =>
      exact .bind (denoteIn_ranges scope span (holds_some.1 hparts)) fun _ _ _ htype =>
        .typedNode span htype
  | function params body =>
    refine .seq (.childScope scope) fun z1 inner hz1 => ?_
    refine .bind (.mapM fun param hparam => ?_) fun z2 types hz2 htypes => ?_
    · exact functionParam_ranges scope inner span ((hparts.1 param hparam).mono hz1)
    refine .seq (he.visit inner (hparts.2.mono (le_trans hz1 hz2))) fun z3 result hz3 => ?_
    exact derived_stores he span [result] (Holds.mono (a := types) htypes hz3)
  | classOf value =>
    exact .seq (hvisit value hparts) fun _ node _ => derived_stores he span [node] trivial

end Infer

/-! ## Programs -/

theorem Engine.ofFuel_ranges (fuel : Nat) : (Engine.ofFuel fuel).Ranges := by
  induction fuel with
  | zero => exact ⟨fun _ _ _ => .throw _, fun _ => .throw _⟩
  | succ fuel ih => exact ⟨Infer.visitWith_stores ih, Infer.recalculateWith_stores ih⟩

theorem Infer.checkWith_stores {z : Sizes} (fuel : Nat) {program : Program}
    (hprogram : z.Holds program.mentions) : Stores z (checkWith (.ofFuel fuel) program) := by
  refine .storeAll fun expr hexpr => (Engine.ofFuel_ranges fuel).visit .root ?_
  exact holds_exprs.1 hprogram expr hexpr

end Callsite
