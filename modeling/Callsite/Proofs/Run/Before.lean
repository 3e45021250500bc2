import Callsite.Proofs.Run.Reading

/-!
# Earlier and later sessions

What every move keeps: tables only grow, calls keep their parts, instances keep what
they were made for, nodes keep their rule and never lose a type.
-/

namespace Callsite

open Session

variable {request : Request} {node : NodeId} {call : CallId} {id : InstanceId} {type : TypeId}

/-- A later flow graph: nodes stay, and a node that has a type keeps having one. -/
structure FlowGraph.Before (g g' : FlowGraph) : Prop where
  size_le : g.size ≤ g'.size
  rule : ∀ node : NodeId, node.index < g.size → (g'.get node).rule = (g.get node).rule
  typed : ∀ node, g.typeOf node ≠ none → g'.typeOf node ≠ none

/-- A later state of a call: its parts are the same, apart from converted arguments. -/
structure CallSite.Before (site site' : CallSite) : Prop where
  node : site'.node = site.node
  name : site'.name = site.name
  receiver : site'.receiver = site.receiver
  blockArg : site'.blockArg = site.blockArg
  scope : site'.scope = site.scope
  isOut : site'.args.map (·.isOut) = site.args.map (·.isOut)
  conversions : site.conversions ⊆ site'.conversions
  args : site.receiver = none → site'.args = site.args

/-- A later state of an instance: what it was made for is the same. -/
structure Instance.Before (inst inst' : Instance) : Prop where
  method : inst'.method = inst.method
  owner : inst'.owner = inst.owner
  selfType : inst'.selfType = inst.selfType
  args : inst'.args = inst.args
  node : inst'.node = inst.node
  free : inst'.free = inst.free

/-- A later session. -/
structure Session.Before (s s' : Session) : Prop where
  types : s.types.Grows s'.types
  flow : s.flow.Before s'.flow
  calls_le : s.calls.size ≤ s'.calls.size
  call : ∀ call, s.HasCall call → (s.call call).Before (s'.call call)
  new_call :
    ∀ call, s'.HasCall call → ¬ s.HasCall call → s.flow.size ≤ (s'.call call).node.index
  instances_le : s.instances.size ≤ s'.instances.size
  inst : ∀ id, s.HasInstance id → (s.instanceAt id).Before (s'.instanceAt id)
  scopes_le : s.scopes.size ≤ s'.scopes.size
  vars :
    ∀ scope : ScopeId, scope.index < s.scopes.size →
      ∀ entry ∈ (s'.scope scope).vars.entries,
        entry ∈ (s.scope scope).vars.entries ∨ s'.IsSlot entry.2
  selfType :
    ∀ scope : ScopeId, scope.index < s.scopes.size →
      (s'.scope scope).selfType = (s.scope scope).selfType
  cached :
    ∀ request id, request.method.index < s.types.methods.size → s.mayOmit request = false →
      s.cache.find? request.key = some id → s'.cache.find? request.key = some id

theorem FlowGraph.Before.refl (g : FlowGraph) : g.Before g where
  size_le := Nat.le_refl _
  rule := fun _ _ => rfl
  typed := fun _ => id

theorem FlowGraph.Before.trans {a b c : FlowGraph} (h : a.Before b) (h' : b.Before c) :
    a.Before c where
  size_le := h.size_le.trans h'.size_le
  rule := fun node hn =>
    (h'.rule node (hn.trans_le h.size_le)).trans (h.rule node hn)
  typed := fun node hn => h'.typed node (h.typed node hn)

theorem CallSite.Before.refl (site : CallSite) : site.Before site :=
  ⟨rfl, rfl, rfl, rfl, rfl, rfl, fun _ => id, fun _ => rfl⟩

theorem CallSite.Before.trans {a b c : CallSite} (h : a.Before b) (h' : b.Before c) :
    a.Before c where
  node := h'.node.trans h.node
  name := h'.name.trans h.name
  receiver := h'.receiver.trans h.receiver
  blockArg := h'.blockArg.trans h.blockArg
  scope := h'.scope.trans h.scope
  isOut := h'.isOut.trans h.isOut
  conversions := fun _ hmem => h'.conversions (h.conversions hmem)
  args := fun hnone => (h'.args (h.receiver.trans hnone)).trans (h.args hnone)

theorem Instance.Before.refl (inst : Instance) : inst.Before inst :=
  ⟨rfl, rfl, rfl, rfl, rfl, rfl⟩

theorem Instance.Before.trans {a b c : Instance} (h : a.Before b) (h' : b.Before c) :
    a.Before c where
  method := h'.method.trans h.method
  owner := h'.owner.trans h.owner
  selfType := h'.selfType.trans h.selfType
  args := h'.args.trans h.args
  node := h'.node.trans h.node
  free := h'.free.trans h.free

namespace Session

variable {s s' s'' : Session}

theorem mayOmit_of_grows (h : s.types.Grows s'.types)
    (hknown : request.method.index < s.types.methods.size) :
    s'.mayOmit request = s.mayOmit request := by
  rw [mayOmit, mayOmit, h.method request.method hknown]

namespace Before

theorem refl (s : Session) : s.Before s where
  types := .refl _
  flow := .refl _
  calls_le := Nat.le_refl _
  call := fun _ _ => .refl _
  new_call := fun _ h h' => absurd h h'
  instances_le := Nat.le_refl _
  inst := fun _ _ => .refl _
  scopes_le := Nat.le_refl _
  vars := fun _ _ _ h => Or.inl h
  selfType := fun _ _ => rfl
  cached := fun _ _ _ _ h => h

section

variable (h : s.Before s')
include h

theorem hasNode (hn : s.HasNode node) : s'.HasNode node :=
  hn.trans_le h.flow.size_le

theorem hasCall (hc : s.HasCall call) : s'.HasCall call :=
  hc.trans_le h.calls_le

theorem hasInstance (hi : s.HasInstance id) : s'.HasInstance id :=
  hi.trans_le h.instances_le

theorem offers {external : External} (ho : s.types.Offers external) : s'.types.Offers external :=
  ho.grows h.types.methods_le h.types.method

theorem isLibrary (hl : s.IsLibrary type) : s'.IsLibrary type := by
  obtain ⟨info, hshape⟩ := hl
  have hknown : s.types.Known type := TypeTable.known_of_shape_ne (by simp [hshape])
  have hgrows := h.types.shape type hknown
  rw [hshape] at hgrows
  generalize hlater : s'.types.shape type = later at hgrows
  cases hgrows with
  | same => exact ⟨info, hlater⟩
  | library _ externals => exact ⟨_, hlater⟩

/-- A type that is in the table does not become a library later. -/
theorem offLibrary (hoff : s.types.Known type ∧ ¬ s.IsLibrary type) :
    s'.types.Known type ∧ ¬ s'.IsLibrary type := by
  refine ⟨h.types.known hoff.1, mt (fun ⟨info, hshape⟩ => ?_) hoff.2⟩
  have hgrows := h.types.shape type hoff.1
  rw [hshape] at hgrows
  generalize hearlier : s.types.shape type = earlier at hgrows
  cases hgrows with
  | same => exact ⟨info, hearlier⟩
  | library _ externals => exact ⟨_, hearlier⟩

theorem isConversion (hc : s.HasCall call) (hconversion : s.IsConversion call) :
    s'.IsConversion call := by
  obtain ⟨source, other, hreceiver, ho, conversion, hmem, hsource, hisOut⟩ := hconversion
  refine ⟨source, other, (h.call call hc).receiver.trans hreceiver, h.hasCall ho, conversion,
    (h.call other ho).conversions hmem, hsource, ?_⟩
  rw [(h.call other ho).isOut]
  exact hisOut

theorem isSlot (hn : s.IsSlot node) : s'.IsSlot node := by
  refine ⟨h.hasNode hn.has, ?_⟩
  rintro call hcall rfl
  by_cases hold : s.HasCall call
  · exact h.isConversion hold (hn.conversion call hold (h.call call hold).node.symm)
  · exact absurd hn.has (Nat.not_lt_of_le (h.new_call call hcall hold))

theorem trans (h' : s'.Before s'') : s.Before s'' where
  types := h.types.trans h'.types
  flow := h.flow.trans h'.flow
  calls_le := h.calls_le.trans h'.calls_le
  call := fun call hc => (h.call call hc).trans (h'.call call (h.hasCall hc))
  new_call := by
    intro call hc hnew
    by_cases hmiddle : s'.HasCall call
    · rw [(h'.call call hmiddle).node]
      exact h.new_call call hmiddle hnew
    · exact h.flow.size_le.trans (h'.new_call call hc hmiddle)
  instances_le := h.instances_le.trans h'.instances_le
  inst := fun id hi => (h.inst id hi).trans (h'.inst id (h.hasInstance hi))
  scopes_le := h.scopes_le.trans h'.scopes_le
  vars := by
    intro scope hs entry hentry
    rcases h'.vars scope (hs.trans_le h.scopes_le) entry hentry with hmiddle | hslot
    · exact (h.vars scope hs entry hmiddle).imp_right h'.isSlot
    · exact Or.inr hslot
  selfType := fun scope hs =>
    (h'.selfType scope (hs.trans_le h.scopes_le)).trans (h.selfType scope hs)
  cached := by
    intro request id hknown homit hfind
    refine h'.cached request id (hknown.trans_le h.types.methods_le) ?_
      (h.cached request id hknown homit hfind)
    rw [mayOmit_of_grows h.types hknown]
    exact homit

theorem isPlain {scope : ScopeId} (hs : s.IsPlain scope) : s'.IsPlain scope := by
  refine ⟨hs.has.trans_le h.scopes_le, fun entry hentry => ?_⟩
  rcases h.vars scope hs.has entry hentry with hold | hslot
  · exact h.isSlot (hs.vars entry hold)
  · exact hslot

theorem args_length (hcall : s.HasCall call) :
    (s'.call call).args.length = (s.call call).args.length := by
  have hisOut := congrArg List.length (h.call call hcall).isOut
  simpa using hisOut

theorem inputs_eq (hcall : s.HasCall call) (hargs : (s'.call call).args = (s.call call).args) :
    (s'.call call).inputs = (s.call call).inputs := by
  rw [CallSite.inputs, CallSite.argNodes, hargs, (h.call call hcall).receiver,
    (h.call call hcall).blockArg]
  rfl

end

/-! ## Single changes -/

/-- Changes that leave calls, instances and the entries of the cache alone. -/
theorem of_same_calls (ht : s.types.Grows s'.types) (hflow : s.flow.Before s'.flow)
    (hcalls : s'.calls = s.calls) (hinstances : s'.instances = s.instances)
    (hscopes : s'.scopes = s.scopes) (hcache : s'.cache.entries = s.cache.entries) :
    s.Before s' := by
  cases s
  cases s'
  subst hcalls hinstances hscopes
  exact
    { refl _ with
      types := ht
      flow := hflow
      vars := fun _ _ _ => Or.inl
      cached := fun _ _ _ _ hfind => by rwa [InstanceCache.find?, hcache] }

theorem withFlow {g : FlowGraph} (h : s.flow.Before g) : s.Before (s.withFlow g) :=
  of_same_calls (.refl _) h rfl rfl rfl rfl

theorem changeCall (call : CallId) {f : CallSite → CallSite}
    (hf : (s.call call).Before (f (s.call call))) : s.Before (s.changeCall call f) where
  __ := refl s
  calls_le := Nat.le_of_eq (by simp)
  call := fun other _ => by
    rw [call_changeCall]
    split
    next h => exact h.1 ▸ hf
    next => exact .refl _
  new_call := fun other hc hnew => absurd ((hasCall_changeCall s call other f).1 hc) hnew
  vars := fun _ _ _ h => Or.inl h

theorem changeInstance (changed : InstanceId) {f : Instance → Instance}
    (hf : ∀ inst : Instance, inst.Before (f inst)) : s.Before (s.changeInstance changed f) where
  __ := refl s
  instances_le := Nat.le_of_eq (by simp)
  inst := fun id _ => by
    rw [instanceAt_changeInstance]
    split
    · exact hf _
    · exact .refl _
  vars := fun _ _ _ h => Or.inl h

end Before

end Session

namespace FlowGraph.Before

variable {g : FlowGraph}

theorem push (fresh : FlowNode) : g.Before ⟨g.nodes.push fresh⟩ := by
  have hold : ∀ node : NodeId, node.index < g.size →
      (⟨g.nodes.push fresh⟩ : FlowGraph).get node = g.get node := by
    intro node hn
    rw [get_push, if_neg (hn.ne)]
  refine ⟨by simp, fun node hn => by rw [hold node hn], fun node htyped => ?_⟩
  by_cases hn : node.index < g.size
  · rwa [typeOf, hold node hn]
  · rw [typeOf, get_of_not_lt g node hn] at htyped
    exact absurd rfl htyped

/-- A change that keeps the rules and the types. -/
theorem of_same {g' : FlowGraph} (hsize : g'.size = g.size)
    (hrule : ∀ node, (g'.get node).rule = (g.get node).rule)
    (htype : ∀ node, g'.typeOf node = g.typeOf node) : g.Before g' where
  size_le := hsize.symm.le
  rule := fun node _ => hrule node
  typed := fun node h => by rwa [htype]

theorem setType (node : NodeId) (type : TypeId) : g.Before (g.setType node (some type)) where
  size_le := by simp
  rule := fun _ _ => by simp
  typed := fun other h => by
    rw [typeOf_setType]
    split
    · simp
    · exact h

theorem addEdges (node : NodeId) (inputs : List NodeId) :
    g.Before (inputs.foldl (fun g input => g.addEdge node input) g) := by
  refine foldl_preserves g (P := g.Before) inputs (fun _ _ _ hb => hb.trans ?_) (.refl g)
  exact of_same (by simp) (by simp) (by simp)

theorem removeEdges {α : Type} (l : List α) (node input : α → NodeId) :
    g.Before (l.foldl (fun g a => g.removeEdge (node a) (input a)) g) := by
  refine foldl_preserves g (P := g.Before) l (fun _ _ _ hb => hb.trans ?_) (.refl g)
  exact of_same (by simp) (by simp) (by simp)

theorem addObservers (inputs : List NodeId) (observer : Observer) :
    g.Before (inputs.foldl (fun g input => g.addObserver input observer) g) := by
  refine foldl_preserves g (P := g.Before) inputs (fun _ _ _ hb => hb.trans ?_) (.refl g)
  exact of_same (by simp) (by simp) (by simp)

end FlowGraph.Before

theorem InstanceCache.find?_insert (c : InstanceCache) (key other : InstanceKey) (id : InstanceId) :
    (c.insert key id).find? other = if other = key then some id else c.find? other := by
  rw [find?, insert, List.lookup_cons, lookup_filter_ne]
  by_cases h : other = key
  · simp [h]
  · simp [beq_false_of_ne h, h, find?]

namespace Session

variable {s s' : Session} {A A' : Agenda} {O : Set CallId}

theorem reopened_before (call : CallId) (signature : List TypeId) :
    s.Before (s.reopened call signature) := by
  refine (Before.changeCall call ?_).trans (.withFlow ?_)
  · exact ⟨rfl, rfl, rfl, rfl, rfl, rfl, fun _ => id, fun _ => rfl⟩
  · exact (FlowGraph.Before.removeEdges _ (fun _ => (s.call call).node) id).trans
      (FlowGraph.Before.removeEdges _ Prod.fst Prod.snd)

theorem resolvedTo_before (call : CallId) (targets : List InstanceId) :
    s.Before (s.resolvedTo call targets) := by
  refine (Before.changeCall call ?_).trans (.withFlow (FlowGraph.Before.addEdges _ _))
  exact ⟨rfl, rfl, rfl, rfl, rfl, rfl, fun _ => id, fun _ => rfl⟩

theorem converted_before (hreceiver : (s.call call).receiver ≠ none) (index : Nat)
    (kind : ConversionKind) (source node : NodeId) :
    s.Before (s.converted call index kind source node) := by
  have hisOut : ∀ args : List Argument,
      (args.modify index fun arg => { arg with node }).map (·.isOut) = args.map (·.isOut) := by
    intro args
    induction args generalizing index with
    | nil => cases index <;> rfl
    | cons first rest ih =>
      cases index with
      | zero => rfl
      | succ index => simpa using ih index
  refine (Before.changeCall call ?_).trans (.withFlow (.of_same (by simp) (by simp) (by simp)))
  exact ⟨rfl, rfl, rfl, rfl, rfl, hisOut _, fun _ => List.mem_append_left _,
    fun hnone => absurd hnone hreceiver⟩

theorem detached_before (call : CallId) : s.Before (s.detached call) :=
  .withFlow (FlowGraph.Before.removeEdges _ (fun _ => (s.call call).node) id)

theorem withCall_before {site : CallSite} (hnode : site.node = ⟨s.flow.size⟩) (span : Span)
    (observed : List NodeId) : s.Before (s.withCall site span observed) where
  __ := Before.refl s
  flow := (FlowGraph.Before.push _).trans (.addObservers _ _)
  calls_le := by simp
  call := fun call hc => by
    rw [call_withCall, if_neg (hc.ne)]
    exact .refl _
  new_call := fun call hc hnew => by
    have hcall : call.index = s.calls.size :=
      ((hasCall_withCall s call site span observed).1 hc).resolve_left hnew
    rw [call_withCall, if_pos hcall, hnode]
  vars := fun _ _ _ h => Or.inl h

theorem withInstance_before (inst : Instance) : s.Before (s.withInstance inst) where
  __ := Before.refl s
  instances_le := by simp
  inst := fun id hi => by
    rw [instanceAt_withInstance, if_neg (hi.ne)]
    exact .refl _
  vars := fun _ _ _ h => Or.inl h

/-- Changes of the scopes alone. -/
theorem scopes_before {scopes : Array Scope} (hsize : s.scopes.size ≤ scopes.size)
    (hvars : ∀ scope : ScopeId, scope.index < s.scopes.size →
      ∀ entry ∈ ({ s with scopes }.scope scope).vars.entries,
        entry ∈ (s.scope scope).vars.entries ∨ s.IsSlot entry.2)
    (hself : ∀ scope : ScopeId, scope.index < s.scopes.size →
      ({ s with scopes }.scope scope).selfType = (s.scope scope).selfType) :
    s.Before { s with scopes } where
  __ := Before.refl s
  scopes_le := hsize
  vars := fun scope hs entry hentry =>
    (hvars scope hs entry hentry).imp_right fun h => ⟨h.has, h.conversion⟩
  selfType := hself

theorem withScope_before (sc : Scope) : s.Before (s.withScope sc) := by
  have hold : ∀ scope : ScopeId, scope.index < s.scopes.size →
      (s.withScope sc).scope scope = s.scope scope := by
    intro scope hs
    rw [scope_withScope, if_neg (hs.ne)]
  refine scopes_before (by simp) (fun scope hs entry hentry => Or.inl ?_) fun scope hs => ?_
  · rwa [← hold scope hs]
  · exact congrArg Scope.selfType (hold scope hs)

theorem withVar_before (scope : ScopeId) (name : String) (h : s.IsSlot node) :
    s.Before (s.withVar scope name node) := by
  refine scopes_before (by simp) (fun other _ entry hentry => ?_) fun other _ => ?_
  · have hmem : entry ∈ ((s.withVar scope name node).scope other).vars.entries := hentry
    rw [scope_withVar] at hmem
    split at hmem
    · rcases NameMap.mem_insert hmem with rfl | hold
      · exact Or.inr h
      · exact Or.inl hold
    · exact Or.inl hmem
  · change ((s.withVar scope name node).scope other).selfType = _
    rw [scope_withVar]
    split
    · rfl
    · rfl

/-- An entry for a method without default values is never replaced. -/
theorem insert_before (hnew : s.mayOmit request = false → s.cache.find? request.key = none) :
    s.Before { s with cache := s.cache.insert request.key id } where
  __ := Before.refl s
  vars := fun _ _ _ h => Or.inl h
  cached := by
    intro other found _ homit hfind
    rw [InstanceCache.find?_insert]
    split
    next hkey =>
      have hmethod : other.method = request.method := congrArg InstanceKey.method hkey
      have hnone : s.cache.find? request.key = none := hnew (by rwa [mayOmit, ← hmethod])
      rw [hkey, hnone] at hfind
      simp at hfind
    next => exact hfind

end Session

/-- Every move leads to a later session. -/
theorem Move.before {s s' : Session} {A A' : Agenda} {O : Set CallId}
    (h : Move O (s, A) (s', A')) : s.Before s' := by
  cases h with
  | wait | lock | joined | current | close | unwatched => exact .refl s
  | aside | count | answer | watch | unwatch =>
    exact .of_same_calls (.refl _) (.refl _) rfl rfl rfl rfl
  | types _ h | declare h => exact .of_same_calls h.grows (.refl _) rfl rfl rfl rfl
  | node node h => exact .withFlow (.push node)
  | freeze | thaw | link => exact .withFlow (.of_same (by simp) (by simp) (by simp))
  | scope scope h => exact withScope_before scope
  | bind scope name h => exact withVar_before scope name h
  | assign | kill => exact .withFlow (.setType _ _)
  | call site span observed h => exact withCall_before h.node span observed
  | block | begin | finish | paramEdge | blockEdge | defer | sign | forget =>
    exact .changeCall _ ⟨rfl, rfl, rfl, rfl, rfl, rfl, fun _ => id, fun _ => rfl⟩
  | make inst h => exact withInstance_before inst
  | params id | body id => exact .changeInstance id fun _ => ⟨rfl, rfl, rfl, rfl, rfl, rfl⟩
  | enter request id hserves harity hnew => exact insert_before hnew
  | reopen hopen hcall hsignature hout => exact reopened_before _ _
  | resolve hcall hopen hout htyped htargets hcovers => exact resolvedTo_before _ _
  | convert index kind hopen hcall hreceiver hnode hmade =>
    exact converted_before hreceiver _ _ _ _
  | resolveForeign hcall htarget hfits =>
    exact (detached_before _).trans (resolvedTo_before _ _)

theorem Evolves.before {a b : Session × Agenda} (h : Evolves a b) : a.1.Before b.1 :=
  h.keeps (P := fun s _ => a.1.Before s) (fun hmove hb => hb.trans hmove.before) (.refl a.1)

end Callsite
