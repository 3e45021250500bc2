import Callsite.Proofs.Engine.Blocks

/-!
# Instantiation by moves

Answering a request enters at most one instance into the cache, and only one that is
exactly what the request asks for.
-/

namespace Callsite

open Session

variable {found : Match} {selfType : Option TypeId} {id : InstanceId} {type : TypeId}
  {output : TypeExpr} {request : Request}

/-- A match is a request with the right number of arguments, and a call that it answers leaves
no parameter of a method without default values open. -/
structure Match.Suits (s : Session) (call : CallId) (selfType : Option TypeId) (found : Match) :
    Prop where
  arity : ∀ block, s.HasArity ⟨found.method, found.owner, selfType, found.args, block⟩
  passed :
    (s.types.method found.method).decl.hasDefaults = false →
      (s.types.method found.method).decl.params.length ≤ (s.call call).args.length

variable {s s' : Session} {A A' : Agenda} {O : Set CallId} {engine : Engine} {call : CallId}

theorem Match.Suits.later (h : found.Suits s call selfType) (hb : s.Before s')
    (hcall : s.HasCall call) : found.Suits s' call selfType := by
  have hknown := (h.arity none).known
  refine ⟨fun block => hb.hasArity (h.arity block), ?_⟩
  rw [hb.types.method _ hknown, hb.args_length hcall]
  exact h.passed

/-- An instance that a call may be resolved to: as long as the call has no targets, the body of
its block has the type that the instance was made for, and keeps it. -/
structure Session.Fits (s : Session) (A : Agenda) (call : CallId) (id : InstanceId) : Prop where
  has : s.HasInstance id
  free : .inst id ∉ A.locks
  held : (s.call call).targets = none → s.IsHeldTo call id

/-- What a method declares for its block is never changed. -/
theorem Session.Before.blockResult?_eq (hb : s.Before s') (hid : s.HasInstance id)
    (hmethod : (s.instanceAt id).method.index < s.types.methods.size) :
    s'.blockResult? id = s.blockResult? id := by
  rw [blockResult?, blockResult?, methodOf, methodOf,
    (hb.inst id hid).method, hb.types.method _ hmethod]

theorem Session.Fits.later (h : s.Fits A call id) (hs : s.Tended A) (hcall : s.HasCall call)
    (hepisode : Episode ∅ (s, A) (s', A)) : s'.Fits A call id := by
  have hb := hepisode.before
  refine ⟨hb.hasInstance h.has, h.free, fun hnone hplain hdeclared key type hfind hblock => ?_⟩
  have hstays := hepisode.keeps call hcall (Set.notMem_empty call) hnone
  have hplain0 := (hb.call call hcall).blockArg.symm.trans hplain
  have hfind0 := hepisode.evolves.cached h.has h.free hfind
  obtain ⟨request, -, hserves, harity⟩ := hs.cache key id hfind0
  have hmethod : (s.instanceAt id).method.index < s.types.methods.size :=
    hserves.method ▸ harity.known
  rw [hb.blockResult?_eq h.has hmethod] at hdeclared
  obtain ⟨body, hbody⟩ := h.held hstays.targets hplain0 hdeclared key type hfind0 hblock
  exact ⟨body, hstays.held hplain0 body type hbody⟩

theorem Session.Accepts.later {owner : TypeId} {free : Bindings}
    (h : s.Accepts owner output type free) (hb : s.Before s') :
    s'.Accepts owner output type free := by
  obtain ⟨t, free0, hfounded, hgrows, hrun⟩ := h
  exact ⟨t, free0, hfounded, hgrows.trans hb.types, hrun⟩

namespace Infer

/-! ## Wrapped computations -/

theorem within_leads {α : Type} {x : Infer α} {Q : α → Session → Prop} (frame : String)
    (hx : Leads O x s A A' Q) : Leads O (within frame x) s A A' Q := by
  cases hrun : x s with
  | ok a s1 =>
    have hend : within frame x s = .ok a s1 := by simp [within, hrun]
    exact (Leads.ok_iff hend).2 ((Leads.ok_iff hrun).1 hx)
  | error halt s1 =>
    obtain ⟨halt', hend⟩ : ∃ halt', within frame x s = .error halt' s1 := by
      cases halt <;> simp [within, hrun]
    exact (Leads.error_iff hend).2 ((Leads.error_iff hrun).1 hx)

/-- How deep bodies are nested is not part of the agenda. -/
theorem nested_leads {x : Infer NodeId} (hs : s.Tended A) (span : Span)
    (hx : ∀ s1, s1.Tended A → s.Before s1 → Leads O x s1 A A' fun node s' => s'.HasNode node) :
    Leads O (nested span x) s A A' fun node s' => s'.HasNode node := by
  refine Leads.get_bind ?_
  dsimp only
  split
  next => exact .fail _ _
  next =>
    exact .enclosed s.enterBody
      (fun s' => { s' with instantiationDepth := s'.instantiationDepth - 1 }) hs
      (.aside _ _ _ _ _ fun _ => Or.inl) (fun _ _ => .aside _ _ _ _ _ fun _ => Or.inl)
      (fun _ _ hrun => by simp [insideBody, hrun]) (fun _ _ hrun => by simp [insideBody, hrun])
      (hx _)

/-! ## Parameters -/

/-- A variable of a body has no observers when it is bound, so that nothing is looked at. -/
theorem initVar_leads {value : NodeId} (hs : s.Tended A) (hvalue : s.HasNode value)
    (scope : ScopeId) (span : Span) (name : String) :
    Leads O (initVar engine scope span name value) s A A fun _ s' => s'.cache = s.cache := by
  refine (ruledNode_leads hs .union span).next hs fun var s1 h1 hsound ⟨hvar, hs1⟩ => ?_
  subst hvar hs1
  have hslot := isSlot_withNode hs.toSound ⟨none, [], [], .union, false, span⟩
  have hfree : .node ⟨s.flow.size⟩ ∉ A.locks := hs.not_locked (Nat.lt_irrefl _)
  have hobservers : ((s.withNode ⟨none, [], [], .union, false, span⟩).flow.get
      ⟨s.flow.size⟩).observers = [] := by
    rw [withFlow_flow, FlowGraph.get_push, if_pos rfl]
  have hne : value ≠ ⟨s.flow.size⟩ := fun heq => Nat.lt_irrefl _ (heq ▸ hvalue)
  refine (connect_quiet_leads hsound hslot (h1.before.hasNode hvalue) hne hobservers).bind
    fun _ s2 h2 hcache => ?_
  exact .ok rfl (.of_move (h2.tended hsound) (.bind scope name (h2.before.isSlot hslot) hfree))
    hcache

theorem passParam_leads {arg : NodeId} (hs : s.Tended A) (harg : s.HasNode arg) (scope : ScopeId)
    (span : Span) (name : String) (type : TypeId) :
    Leads O (passParam engine call scope span name arg type) s A A fun node s' =>
      s'.IsSlot node ∧ s'.cache = s.cache := by
  refine (typedNode_leads hs type span).next hs fun pinned s1 h1 hsound ⟨hpinned, hs1⟩ => ?_
  subst hpinned hs1
  have hslot := isSlot_withNode hs.toSound ⟨some type, [], [], .pinned type, false, span⟩
  have hlink := Episode.of_move (O := O) (A := A) hsound (.link hslot (h1.before.hasNode harg))
  -- A pinned node joins nothing, so that it need not be looked at.
  have hjoined := (hlink.trans (.of_move (hlink.tended hsound) (.joined fun hrule => by
    rw [withFlow_flow, FlowGraph.rule_addEdge, withFlow_flow, FlowGraph.get_push,
      if_pos rfl] at hrule
    exact absurd hrule (by simp)))).wait hsound (A.dropNode_withNode_le ⟨s.flow.size⟩)
  refine .step rfl hjoined ?_
  refine .move (hjoined.tended hsound) (.paramEdge (hlink.before.isSlot hslot)
    ((h1.before.trans hlink.before).hasNode harg)) rfl fun hs3 hb3 => ?_
  have hslot3 := hb3.isSlot (hlink.before.isSlot hslot)
  refine (initVar_leads hs3 hslot3.has scope span name).bind fun _ s4 h4 hcache => ?_
  exact .pure ⟨h4.before.isSlot hslot3, hcache⟩

theorem passParams_leads {passed : List (Param × NodeId × TypeId)} (hs : s.Tended A)
    (hpassed : ∀ entry ∈ passed, s.HasNode entry.2.1) (scope : ScopeId) (span : Span) :
    Leads O (passed.mapM fun (param, arg, type) =>
        passParam engine call scope span param.name arg type) s A A fun nodes s' =>
      (∀ node ∈ nodes, s'.IsSlot node) ∧ s'.cache = s.cache := by
  refine Leads.mapM_slots (K := fun s' => s'.cache = s.cache) passed rfl
    fun ⟨param, arg, type⟩ hentry s1 h1 hcache1 => ?_
  have harg : s1.HasNode arg := h1.before.hasNode (hpassed (param, arg, type) hentry)
  exact (passParam_leads (h1.tended hs) harg scope span param.name type).post
    fun node s2 _ ⟨hnode, hcache2⟩ => ⟨hnode, hcache2.trans hcache1⟩

theorem defaultParam_leads {scope : ScopeId} (he : engine.Guides) (hs : s.Tended A)
    (hplain : s.IsPlain scope) (span : Span) (param : Param) :
    Leads ∅ (defaultParam engine scope span param) s A A fun _ _ => True := by
  unfold defaultParam
  split
  next expr _ =>
    refine (he.visit scope expr hs hplain.has (Or.inl hplain)).bind fun value s1 h1 hvalue => ?_
    exact (initVar_leads (h1.tended hs) hvalue.has scope span param.name).post
      fun _ _ _ _ => trivial
  next =>
    exact (initVar_leads hs hs.nil scope span param.name).post fun _ _ _ _ => trivial

/-! ## Instances -/

theorem pushScope_leads {sc : Scope} (hs : s.Tended A) (hvars : sc.vars = .empty)
    (hsits : sc.Sits s) :
    Leads O (pushScope sc) s A A fun scope s' => s'.IsPlain scope ∧ s' = s.withScope sc := by
  have hnone : ∀ entry, entry ∉ sc.vars.entries := by simp [hvars, NameMap.empty]
  have hplain : (s.withScope sc).IsPlain ⟨s.scopes.size⟩ := by
    refine ⟨by simp, ?_⟩
    rw [scope_withScope, if_pos rfl]
    exact fun entry hentry => absurd hentry (hnone entry)
  refine .ok rfl (.of_move hs (.scope sc hsits ?_)) ⟨hplain, rfl⟩
  exact fun entry hentry => absurd hentry (hnone entry)

/-- What an instance was made for is never changed. -/
theorem made_later {inst : Instance} (hb : (s.withInstance inst).Before s') :
    s'.HasInstance ⟨s.instances.size⟩ ∧ inst.Before (s'.instanceAt ⟨s.instances.size⟩) := by
  have hhas : (s.withInstance inst).HasInstance ⟨s.instances.size⟩ :=
    (hasInstance_withInstance s _ inst).2 (Or.inr rfl)
  have hlater := hb.inst _ hhas
  rw [instanceAt_withInstance, if_pos rfl] at hlater
  exact ⟨hb.hasInstance hhas, hlater⟩

/-- A new instance is exactly what it was made for, and only default values can change the cache
on the way. -/
structure Makes (s s' : Session) (found : Match) (selfType : TypeId) (id : InstanceId) : Prop where
  eq : id = ⟨s.instances.size⟩
  has : s'.HasInstance id
  method : (s'.instanceAt id).method = found.method
  owner : (s'.instanceAt id).owner = found.owner
  selfType : (s'.instanceAt id).selfType = selfType
  args : (s'.instanceAt id).args = found.args
  free : (s'.instanceAt id).free = found.free

section

variable (he : engine.Guides) (hs : s.Tended A)
include he hs

theorem makeInstance_leads (hcall : s.HasCall call) (found : Match) (selfType : TypeId)
    {blockInputs : Option (List NodeId)}
    (hinputs : ∀ inputs, blockInputs = some inputs → ∀ input ∈ inputs, s.HasNode input) :
    Leads ∅ (makeInstance engine call found selfType blockInputs) s A
      (A.withLock (.inst ⟨s.instances.size⟩)) fun id s' =>
        Makes s s' found selfType id ∧
        ((s.types.method found.method).decl.params.length ≤ (s.call call).args.length →
          s'.cache = s.cache) := by
  refine Leads.get_bind ?_
  refine .bind (pushScope_leads hs rfl
    { vars := by simp [NameMap.empty], call := fun other hother => Option.some.inj hother ▸ hcall
      blockInputs := hinputs, parent := by simp }) fun scope s1 h1 ⟨hplain1, heq⟩ => ?_
  subst heq
  have hs1 := h1.tended hs
  refine (ruledNode_leads hs1 .union _).next hs1 fun node s2 h2 hs2 hadded => ?_
  obtain ⟨rfl, rfl⟩ := hadded
  have hplain2 := h2.before.isPlain hplain1
  refine .move hs2 (.make _ ⟨isSlot_withNode hs1.toSound _, ?_, by simp, ?_⟩) rfl
    fun hs3 hb3 => .get_bind ?_
  · exact fun param hparam => absurd hparam List.not_mem_nil
  · exact fun scope hscope => Option.some.inj hscope ▸ hplain2
  have hargs : ∀ arg ∈ (s.call call).argNodes, s.HasNode arg := fun arg harg =>
    (hs.calls call hcall).inputs arg (by simp [CallSite.inputs, harg])
  refine (passParams_leads hs3 (fun entry hentry => ((h1.before.trans h2.before).trans hb3).hasNode
    (hargs _ (List.of_mem_zip (List.of_mem_zip hentry).2).1)) _ _).next hs3
    fun params s4 h4 hs4 hpass => ?_
  obtain ⟨hparams, hcache⟩ := hpass
  refine .move hs4 (.params _ params hparams) rfl fun hs5 hb5 => ?_
  have hlater := h4.before.trans hb5
  have hmakes : ∀ s6, (s4.changeInstance ⟨s.instances.size⟩ ({ · with params })).Before s6 →
      Makes s s6 found selfType ⟨s.instances.size⟩ := by
    intro s6 hb6
    obtain ⟨hhas, hmade⟩ := made_later (hlater.trans hb6)
    exact ⟨rfl, hhas, hmade.method, hmade.owner, hmade.selfType, hmade.args, hmade.free⟩
  generalize hrest : List.drop _ (s.types.method found.method).decl.params = rest
  cases rest with
  | nil => exact .step rfl (.refl _) (.pure ⟨hmakes _ (.refl _), fun _ => hcache⟩)
  | cons param rest =>
    have hplain := (hb3.trans hlater).isPlain hplain2
    refine (Leads.forM _ fun param _ s6 h6 => defaultParam_leads he (h6.tended hs5)
      (h6.before.isPlain hplain) _ param).bind fun _ s6 h6 _ => ?_
    refine .pure ⟨hmakes s6 h6.before, fun hle => ?_⟩
    have hnil : List.drop ((s.call call).argNodes.length)
        (s.types.method found.method).decl.params = [] :=
      List.drop_eq_nil_of_le (by simpa [CallSite.argNodes] using hle)
    exact absurd (hnil.symm.trans hrest) (by simp)

theorem setBody_leads {node body : NodeId} (id : InstanceId) (hslot : s.IsSlot node)
    (hbody : s.HasNode body) : Leads ∅ (setBody engine id node body) s A A fun _ _ => True :=
  .move hs (.body id hbody) rfl fun hs1 hb1 =>
    connect_leads he hs1 (hb1.isSlot hslot) (by simpa using hb1.hasNode hbody)

theorem visitBody_leads (hid : s.HasInstance id) :
    Leads ∅ (visitBody engine id) s A A fun _ _ => True := by
  have hsits := hs.instances id hid
  refine Leads.get_bind ?_
  dsimp only
  split
  next body scope hbody hscope =>
    have hplain := hsits.scope scope hscope
    refine (nested_leads hs _ fun s1 hs1 hb1 => ?_).bind fun node s1 h1 hnode =>
      setBody_leads he (h1.tended hs) id (h1.before.isSlot hsits.node) hnode
    have hplain1 := hb1.isPlain hplain
    exact (he.visit scope body hs1 hplain1.has (Or.inl hplain1)).post fun _ _ _ h => h.has
  next => exact .step rfl (.refl _) (setBody_leads he hs id hsits.node hs.nil)

theorem bindParams_leads (hcall : s.HasCall call) (hid : s.HasInstance id) :
    Leads ∅ (bindParams engine call id) s A A fun _ _ => True := by
  refine Leads.get_bind (.forM _ fun ⟨param, arg⟩ hpair s1 h1 => ?_)
  obtain ⟨hparam, harg⟩ := List.of_mem_zip hpair
  have hslot := h1.before.isSlot ((hs.instances id hid).params param hparam)
  have hnode : s1.HasNode arg :=
    h1.before.hasNode ((hs.calls call hcall).inputs arg (by simp [CallSite.inputs, harg]))
  refine .move (h1.tended hs) (.paramEdge hslot hnode) rfl fun hs2 hb2 => ?_
  exact connect_leads he hs2 (hb2.isSlot hslot) (by simpa using hb2.hasNode hnode)

end

/-! ## Requests -/

theorem askCache_eq (key : InstanceKey) (s : Session) :
    askCache key s = .ok (s.cache.ask key).1 { s with cache := (s.cache.ask key).2 } := rfl

theorem askCache_leads (hs : s.Tended A) (key : InstanceKey) :
    Leads O (askCache key) s A A fun found s' =>
      found = s.cache.find? key ∧
        ∃ hits misses, s' = { s with cache := { s.cache with hits, misses } } := by
  obtain ⟨hits, misses, hask⟩ : ∃ hits misses,
      s.cache.ask key = (s.cache.find? key, { s.cache with hits, misses }) := by
    rw [InstanceCache.ask]
    cases s.cache.find? key <;> exact ⟨_, _, rfl⟩
  have hrun := askCache_eq key s
  rw [hask] at hrun
  exact .ok hrun (.of_move hs (.count _ _)) ⟨rfl, hits, misses, rfl⟩

/-- A request that a shared instance answers. -/
theorem answer_leads {maker : Request} (hs : s.Tended A) (hkey : maker.key = request.key)
    (hserves : s.Serves maker id) (harity : s.HasArity request) (hmaker : s.HasArity maker)
    (hcached : s.mayOmit request = false → s.cache.find? request.key = some id) :
    Leads O (answer request id) s A A fun result s' =>
      result = id ∧ (s'.instanceAt id).owner = request.owner := by
  refine .ok rfl (.of_move hs (.answer request maker id hkey hserves harity hmaker hcached)) ?_
  exact ⟨rfl, hserves.owner.trans (congrArg InstanceKey.owner hkey)⟩

/-- An instance that was just made is entered into the cache under one key. -/
theorem enterInstance_leads (frame : String) (he : engine.Guides)
    (hs : s.Tended (A.withLock (.inst id))) (hunlocked : .inst id ∉ A.locks)
    (hserves : s.Serves request id) (harity : s.HasArity request)
    (hnew : s.mayOmit request = false → s.cache.find? request.key = none)
    (haccepts : ∀ type, request.block = some type → s.AcceptsBlock id type) :
    Leads ∅ (do
        insertCache request.key id
        within frame (visitBody engine id)
        answer request id) s (A.withLock (.inst id)) A fun result s' =>
      (result = id ∧ (s'.instanceAt id).owner = request.owner) ∧
        ∀ key, s'.cache.find? key = some id → key = request.key := by
  have hlocked : Lock.inst id ∈ (A.withLock (.inst id)).locks := Set.mem_insert _ _
  have hfresh := (hs.locks _ hlocked).2.1
  have henter : Move ∅ (s, A.withLock (.inst id))
      ({ s with cache := s.cache.insert request.key id },
        (A.withLock (.inst id)).dropLock (.inst id)) :=
    .enter request id hserves harity hnew hlocked hfresh haccepts
  have hentered := (Episode.of_move hs henter).wait hs (Agenda.dropLock_withLock_le hunlocked)
  have hs1 := hentered.tended hs
  have hb1 := hentered.before
  have hkey : ∀ key, (s.cache.insert request.key id).find? key = some id → key = request.key := by
    intro key hfind
    rw [InstanceCache.find?_insert] at hfind
    split at hfind
    next heq => exact heq
    next => exact absurd hfind (hfresh key)
  refine .step rfl hentered ?_
  refine (within_leads frame (visitBody_leads he hs1 (hb1.hasInstance hserves.has))).bind
    fun _ s2 h2 _ => ?_
  have hb2 := hb1.trans h2.before
  refine (answer_leads (h2.tended hs1) rfl (hb2.serves hserves) (hb2.hasArity harity)
    (hb2.hasArity harity) fun homit => ?_).post fun result s3 h3 hresult => ⟨hresult, ?_⟩
  · rw [mayOmit_of_grows hb2.types harity.known] at homit
    exact h2.before.cached request id harity.known homit
      (by simp [InstanceCache.find?, InstanceCache.insert])
  · intro key hfind
    exact hkey key ((h2.trans h3).evolves.cached (hb1.hasInstance hserves.has) hunlocked hfind)

/-- The body whose type a request asks for is held to that type, which the method accepts. -/
theorem Agrees.holdsBody (hagrees : Agrees s call found)
    (houtput : (s.types.method found.method).blockResult? = some output)
    (htype : ((s.call call).block.bind fun block => block.visit.node?.bind s.typeOf) = some type) :
    (∃ node, s.HoldsBody call node type) ∧ s.Accepts found.owner output type found.free := by
  obtain ⟨block, hblock, hvisit⟩ := Option.bind_eq_some_iff.1 htype
  obtain ⟨node, hnode, htypeOf⟩ := Option.bind_eq_some_iff.1 hvisit
  have hbody : s.body? call = some node :=
    body?_eq_some.2 ⟨block, hblock, Visit.node?_eq_some.1 hnode⟩
  obtain ⟨hfrozen, haccepts⟩ := hagrees output node houtput hbody
  exact ⟨⟨node, hbody, hfrozen, htypeOf⟩, haccepts type htypeOf⟩

/-- An instance of a match that agrees with the block of a call may be a target of the call. -/
theorem Agrees.fits {found : Match} {id : InstanceId} {block : Option TypeId}
    (hagrees : Agrees s call found) (hcall : s.HasCall call)
    (hknown : found.method.index < s.types.methods.size) (hepisode : Episode ∅ (s, A) (s', A))
    (hid : s'.HasInstance id) (hmethod : (s'.instanceAt id).method = found.method)
    (hfree : .inst id ∉ A.locks)
    (hblock : ∀ type, block = some type →
      ((s.call call).block.bind fun block => block.visit.node?.bind s.typeOf) = some type)
    (hkeys : ∀ key, s'.cache.find? key = some id → key.block = block) : s'.Fits A call id := by
  refine ⟨hid, hfree, fun hnone hplain hdeclared key type hfind hkey => ?_⟩
  have hstays := hepisode.keeps call hcall (Set.notMem_empty call) hnone
  obtain ⟨output, houtput⟩ := Option.ne_none_iff_exists'.1 hdeclared
  rw [blockResult?, methodOf, hmethod, hepisode.before.types.method _ hknown] at houtput
  have htype := hblock type ((hkeys key hfind).symm.trans hkey)
  obtain ⟨⟨node, hbody⟩, -⟩ := hagrees.holdsBody houtput htype
  refine ⟨node, hstays.held ?_ node type hbody⟩
  rw [← (hepisode.before.call call hcall).blockArg, hplain]

theorem instantiate_leads (he : engine.Guides) (hs : s.Tended A) (hcall : s.HasCall call)
    (hsuits : found.Suits s call selfType) :
    Leads ∅ (instantiate engine call found selfType) s A A fun id s' =>
      s'.Fits A call id ∧ (s'.instanceAt id).owner = found.owner := by
  have hknown := (hsuits.arity none).known
  refine (matchBlock_leads he hs hcall hknown).next hs
    fun ⟨found', declared⟩ s1 h1 hs1 ⟨⟨free, hfound⟩, hagrees, hinputs⟩ => ?_
  obtain rfl : found' = { found with free } := hfound
  have hcall1 := h1.before.hasCall hcall
  have hsuits1 := hsuits.later h1.before hcall
  have hknown1 := (hsuits1.arity none).known
  refine Leads.get_bind ?_
  dsimp only
  generalize hblockType :
    (if (s1.types.method found.method).decl.blockParam.isSome = true then _ else none) = block
  have hblock : ∀ type, block = some type →
      ((s1.call call).block.bind fun block => block.visit.node?.bind s1.typeOf) = some type := by
    intro type htype
    rw [htype] at hblockType
    split at hblockType
    next => exact hblockType
    next => simp at hblockType
  have harity1 := hsuits1.arity block
  split
  case isFalse =>
    refine (makeInstance_leads he hs1 hcall1 _ _ hinputs).next hs1 fun id s2 h2 hs2 ⟨hmade, _⟩ => ?_
    obtain rfl := hmade.eq
    refine (within_leads _ (visitBody_leads he hs2 hmade.has)).next hs2 fun _ s3 h3 hs3 _ => ?_
    have hlater := h3.before.inst _ hmade.has
    refine (Leads.pure ⟨?_, hlater.owner.trans hmade.owner⟩).wait hs3 (A.withLock_le _)
    refine hagrees.fits hcall1 hknown1 ((h2.trans h3).wait hs1 (A.withLock_le _))
      (h3.before.hasInstance hmade.has) (hlater.method.trans hmade.method)
      (fun hlock => Nat.lt_irrefl _ (hs1.locks _ hlock).1) hblock fun key hfind => ?_
    exact absurd hfind ((hs3.locks _ (Set.mem_insert _ _)).2.1 key)
  case isTrue =>
    refine (askCache_leads hs1 _).next hs1
      fun cached s2 h2 hs2 ⟨hcached, hits, misses, hcounted⟩ => ?_
    have hcall2 := h2.before.hasCall hcall1
    have harity2 := h2.before.hasArity harity1
    have hfind : ∀ key, s2.cache.find? key = s1.cache.find? key := fun key => by
      rw [hcounted]
      rfl
    rw [← hfind] at hcached
    cases cached with
    | some id =>
      obtain ⟨maker, hkey, hserves, hmaker⟩ := hs2.cache _ _ hcached.symm
      have hfree : .inst id ∉ A.locks := fun hlock =>
        (hs2.locks _ hlock).2.1 _ hcached.symm
      refine (within_leads _ (bindParams_leads he hs2 hcall2 hserves.has)).bind fun _ s3 h3 _ => ?_
      have hb3 := h3.before
      refine (answer_leads (h3.tended hs2) hkey (hb3.serves hserves)
        (hb3.hasArity harity2) (hb3.hasArity hmaker) fun homit => ?_).post ?_
      · rw [mayOmit_of_grows hb3.types harity2.known] at homit
        exact hb3.cached _ id harity2.known homit hcached.symm
      rintro _ s4 h4 ⟨rfl, howner⟩
      have hlater := (h3.trans h4).before.inst _ hserves.has
      refine ⟨hagrees.fits hcall1 hknown1 (h2.trans (h3.trans h4))
        ((h3.trans h4).before.hasInstance hserves.has) ?_ hfree hblock fun key hkeyed => ?_,
        howner⟩
      · exact (hlater.method.trans hserves.method).trans (congrArg InstanceKey.method hkey)
      · have hold := (h3.trans h4).evolves.cached hserves.has hfree hkeyed
        rw [hs2.keys key _ _ hold hcached.symm]
        rfl
    | none =>
      refine (makeInstance_leads he hs2 hcall2 _ _ fun inputs heq input hinput =>
        h2.before.hasNode (hinputs inputs heq input hinput)).next hs2
        fun id s3 h3 hs3 ⟨hmade, hquiet⟩ => ?_
      obtain rfl := hmade.eq
      have hb3 := h2.before.trans h3.before
      have harity3 := h3.before.hasArity harity2
      have hfree : .inst ⟨s2.instances.size⟩ ∉ A.locks := fun hlock =>
        Nat.lt_irrefl _ (hs2.locks _ hlock).1
      refine (enterInstance_leads (s1.frame call) he hs3 hfree ?_ harity3 ?_ ?_).post ?_
      · exact ⟨hmade.has, hmade.method, hmade.owner, hmade.selfType, hmade.args⟩
      · intro homit
        rw [mayOmit_of_grows h3.before.types harity2.known] at homit
        rw [hquiet ((hsuits1.later h2.before hcall1).passed homit)]
        exact hcached.symm
      · intro type htype output houtput
        rw [blockResult?, methodOf, hmade.method, hb3.types.method _ hknown1] at houtput
        rw [hmade.owner, hmade.free]
        exact (hagrees.holdsBody houtput (hblock type htype)).2.later hb3
      · rintro _ s4 h4 ⟨⟨rfl, howner⟩, hkeys⟩
        have hlater := h4.before.inst _ hmade.has
        refine ⟨hagrees.fits hcall1 hknown1 (h2.trans (h3.trans h4))
          (h4.before.hasInstance hmade.has) (hlater.method.trans hmade.method) hfree hblock
          fun key hkeyed => ?_, howner⟩
        rw [hkeys key hkeyed]
        rfl

end Infer

end Callsite
