import Callsite.Proofs.Engine.Propagation

/-!
# Blocks and `yield` by moves
-/

namespace Callsite.Infer

variable {s s' : Session} {A A' : Agenda} {O : Set CallId} {engine : Engine} {call : CallId}

theorem mem_supplied {params sources : List NodeId} {pair : NodeId × NodeId}
    (h : pair ∈ supplied params sources) :
    pair.1 ∈ params ∧ (pair.2 ∈ sources ∨ pair.2 = .nil) := by
  obtain ⟨i, hi, rfl⟩ := List.mem_mapIdx.1 h
  refine ⟨List.getElem_mem hi, ?_⟩
  cases hsource : sources[i]? with
  | none => exact Or.inr rfl
  | some source => exact Or.inl (by simpa [hsource] using List.mem_of_getElem? hsource)

/-- A block that is being looked at is locked, so that nobody else finishes it; the block that
stands for a function may be replaced meanwhile. -/
theorem startVisit_leads (hs : s.Tended A) (hcall : s.HasCall call)
    (hunlocked : .visit call ∉ A.locks)
    (hstarted : (s.call call).block.map (·.visit) = some .started) :
    ∃ B, Episode ∅ (s, A) (s, B) ∧ B.dropLock (.visit call) ≤ A ∧
      ∀ s', s'.Tended B → s.Before s' → (s'.call call).blockArg = none →
        (s'.call call).block.map (·.visit) = some .started := by
  by_cases hblockArg : (s.call call).blockArg = none
  · refine ⟨A.withLock (.visit call), .of_move hs (.lock ⟨hcall, hblockArg, hstarted⟩ (by simp)),
      Agenda.dropLock_withLock_le hunlocked,
      fun s' hs' _ _ => (hs'.locks _ (Set.mem_insert _ _)).2.2⟩
  · refine ⟨A, .refl _, Agenda.dropLock_le hunlocked, fun s' _ hb hnone => ?_⟩
    exact absurd ((hb.call call hcall).blockArg.symm.trans hnone) hblockArg

/-- A new node becomes that of the body, which nobody has looked at meanwhile. -/
theorem finishVisit_leads {B : Agenda} {node : NodeId} (hs : s.Tended B) (hcall : s.HasCall call)
    (h : Episode ∅ (s, B) (s', B)) (hgives : s.Gives s' node) (hdrop : B.dropLock (.visit call) ≤ A)
    (hstarted : (s'.call call).blockArg = none →
      (s'.call call).block.map (·.visit) = some .started) :
    Leads ∅ (do modifyCall call (·.visited (.finished node)); pure (some node)) s' B A
      fun body s'' => (∀ node, body = some node → s''.HasNode node) ∧
        ∀ node, s''.body? call = some node → body = some node := by
  have hfinish : Move ∅ (s', B)
      (s'.changeCall call (·.visited (.finished node)), B.dropLock (.visit call)) := by
    refine .finish hgives.has (fun other hbody => ?_) (hs.not_locked hgives.new) hstarted
    exact hgives.loose.unused other (Or.inr (Or.inr hbody))
  have hfinished : ∀ other, (s'.changeCall call (·.visited (.finished node))).body? call
      = some other → some node = some other := by
    intro other hbody
    obtain ⟨found, hfound, hvisit⟩ := Session.body?_eq_some.1 hbody
    rw [s'.call_changeCall_self _ (h.before.hasCall hcall)] at hfound
    obtain ⟨found, -, rfl⟩ := Option.map_eq_some_iff.1 hfound
    exact congrArg some (Visit.finished.inj hvisit)
  have hepisode := (Episode.of_move (h.tended hs) hfinish).wait (h.tended hs) hdrop
  refine .step rfl hepisode (.pure ⟨fun other hother => ?_, hfinished⟩)
  exact Option.some.inj hother ▸ hgives.has

theorem blockResult_leads {block : BlockSite} (he : engine.Guides) (hs : s.Tended A)
    (hsits : block.Sits s) (span : Span) :
    Leads ∅ (blockResult engine block span) s A A fun node s' => s.Gives s' node := by
  unfold blockResult
  split
  next body hbody =>
    exact he.visit block.scope body hs hsits.scope (hsits.body.imp_right fun h => h body hbody)
  next => exact typedNode_gives_leads hs .nil span

/-- The body that a call's block has then is the one that is given back. -/
theorem visitBlock_leads (he : engine.Guides) (hs : s.Tended A) (hcall : s.HasCall call) :
    Leads ∅ (visitBlock engine call) s A A fun body s' =>
      (∀ node, body = some node → s'.HasNode node) ∧
        ∀ node, s'.body? call = some node → body = some node := by
  refine Leads.get_bind ?_
  dsimp only
  split
  next hnone =>
    refine .pure ⟨by simp, fun node hbody => ?_⟩
    obtain ⟨block, hblock, -⟩ := Session.body?_eq_some.1 hbody
    exact absurd (hnone.symm.trans hblock) (by simp)
  next block hblock =>
    have hsits := (hs.calls call hcall).block block hblock
    have hvisited : ∀ node, s.body? call = some node → block.visit = .finished node := by
      intro node hbody
      obtain ⟨other, hother, hvisit⟩ := Session.body?_eq_some.1 hbody
      rwa [Option.some.inj (hblock.symm.trans hother)]
    split
    next hvisit =>
      refine .pure ⟨by simp, fun node hbody => ?_⟩
      exact absurd (hvisit.symm.trans (hvisited node hbody)) (by simp)
    next node hvisit =>
      refine .pure ⟨fun other hother => ?_, fun other hbody => ?_⟩
      · exact Option.some.inj hother ▸ hsits.visited node hvisit
      · exact congrArg some (Visit.finished.inj (hvisit.symm.trans (hvisited other hbody)))
    next hvisit =>
      have hpending : (s.call call).block.map (·.visit) = some .pending := by
        rw [hblock, Option.map_some, hvisit]
      have hunlocked : .visit call ∉ A.locks := by
        intro hlock
        obtain ⟨-, -, hstarted⟩ := hs.locks _ hlock
        exact absurd (hpending.symm.trans hstarted) (by simp)
      refine .move hs (.begin hpending) rfl fun hs1 hb1 => ?_
      have hcall1 := hb1.hasCall hcall
      have hstarted1 : ((s.changeCall call (·.visited .started)).call call).block.map (·.visit)
          = some .started := by
        rw [s.call_changeCall_self _ hcall]
        simp [hblock]
      obtain ⟨B, hB, hdrop, hstarted⟩ := startVisit_leads hs1 hcall1 hunlocked hstarted1
      have hsB := hB.tended hs1
      refine .of_run rfl hB ((blockResult_leads he hsB (hsits.mono hb1) _).bind
        fun node s2 h2 hgives => ?_)
      exact finishVisit_leads hsB hcall1 h2 hgives hdrop (hstarted s2 (h2.tended hsB) h2.before)

theorem declaredInput_leads (hs : s.Tended A) (owner : TypeId) (free : Bindings) (span : Span)
    (input : TypeExpr) :
    Leads O (declaredInput owner free span input) s A A fun node s' => s'.HasNode node := by
  refine (denoting_leads hs (TypeTable.denote_denotes hs.types owner free span input)).next hs
    fun type s1 h1 hs1 _ => .get_bind ?_
  split
  next habstract =>
    have hknown : s1.types.Known type := by
      refine TypeTable.known_of_shape_ne fun heq => ?_
      simp [TypeTable.isAbstract, heq] at habstract
    refine (build_leads hs1 (TypeTable.hierarchy_builds hknown)).bind fun hierarchy s2 h2 _ => ?_
    exact (typedNode_slot_leads (h2.tended hs1) _ _).post fun _ _ _ h => h.has
  next => exact (typedNode_slot_leads hs1 _ _).post fun _ _ _ h => h.has

theorem bindDeclared_leads {param source : NodeId} (he : engine.Guides) (hs : s.Tended A)
    (hparam : s.IsSlot param) (hsource : s.HasNode source) :
    Leads ∅ (bindDeclared engine call param source) s A A fun _ _ => True := by
  refine .move hs (.blockEdge hparam hsource) rfl fun hs1 hb1 => ?_
  exact connect_leads he hs1 (hb1.isSlot hparam) (by simpa using hb1.hasNode hsource)

theorem checkBody_leads {body : NodeId} (hs : s.Tended A) (hbody : s.HasNode body)
    (declared : DeclaredOutput) :
    Leads O (checkBody body declared) s A A fun free s' => SameButTypes s s' ∧
      ∀ type, s.typeOf body = some type →
        s'.Accepts declared.owner declared.output type free := by
  refine .step rfl (.refl _) ?_
  split
  next found hfound =>
    refine (checkOutput_leads hs body _ declared).post fun free s1 h1 hchecked => ?_
    refine ⟨hchecked.1, fun type htype => ?_⟩
    obtain rfl := Option.some.inj (hfound.symm.trans htype)
    exact ⟨s.types, declared.free, hs.types, h1.before.types, hchecked.2⟩
  next hnone =>
    refine .move hs (.aside _ _ _ _ _ fun entry hentry => ?_) rfl fun _ _ => .pure ?_
    · rcases List.mem_cons.1 hentry with rfl | hold
      · exact Or.inr hbody
      · exact Or.inl (List.mem_filter.1 hold).1
    · exact ⟨⟨s.types, _, rfl, .refl _⟩, fun _ htype => absurd (hnone.symm.trans htype) (by simp)⟩

/-- The body is frozen, and if it has a type by now, the declared result accepts it. -/
theorem constrainBody_leads {body : NodeId} (hs : s.Tended A) (hbody : s.HasNode body)
    (declared : DeclaredOutput) :
    Leads O (constrainBody body declared) s A A fun free s' => s'.calls = s.calls ∧
      (s'.flow.get body).frozen = true ∧
      ∀ type, s'.typeOf body = some type →
        s'.Accepts declared.owner declared.output type free := by
  refine (checkBody_leads hs hbody declared).bind fun free s1 h1 ⟨hsame, haccepts⟩ => ?_
  obtain ⟨t, outputs, rfl, -⟩ := hsame
  refine .step rfl (.of_move (h1.tended hs) (.freeze body)) (.pure ⟨rfl, ?_, fun type htype => ?_⟩)
  · exact (FlowGraph.frozen_setFrozen _ _ _ _).trans (if_pos ⟨rfl, hbody⟩)
  · exact haccepts type ((FlowGraph.typeOf_setFrozen _ _ _ _).symm.trans htype)

/-- A match agrees with the block of a call: if the method declares the result of its block, the
body is frozen, and the declared result accepts the type that the body has by now. -/
def Agrees (s : Session) (call : CallId) (found : Match) : Prop :=
  ∀ output node, (s.types.method found.method).blockResult? = some output →
    s.body? call = some node → (s.flow.get node).frozen = true ∧
      ∀ type, s.typeOf node = some type → s.Accepts found.owner output type found.free

variable (he : engine.Guides) (hs : s.Tended A)
include he hs

/-- Matching the block of a call changes nothing about the match but its free variables, and makes
it agree with the block. -/
theorem matchBlock_leads {found : Match} (hcall : s.HasCall call)
    (hmethod : found.method.index < s.types.methods.size) :
    Leads ∅ (matchBlock engine call found) s A A fun result s' =>
      (∃ free, result.1 = { found with free }) ∧ Agrees s' call result.1 ∧
        ∀ inputs, result.2 = some inputs → ∀ input ∈ inputs, s'.HasNode input := by
  refine Leads.get_bind ?_
  dsimp only
  split
  next declared yields block hdeclared hyields hblock =>
    refine (Leads.mapM_all (P := fun node s' => s'.HasNode node)
      (fun _ _ _ => Session.Before.hasNode) _ fun input _ s1 h1 =>
        declaredInput_leads (h1.tended hs) found.owner found.free _ input).next hs
          fun sources s1 h1 hs1 hsources => ?_
    have hcall1 := h1.before.hasCall hcall
    have hparams := ((hs.calls call hcall).block block hblock).params
    have hbound : Leads ∅ ((supplied block.params sources).forM fun pair =>
        bindDeclared engine call pair.1 pair.2) s1 A A fun _ _ => True := by
      refine .forM _ fun pair hpair s2 h2 => ?_
      obtain ⟨hparam, hsource⟩ := mem_supplied hpair
      refine bindDeclared_leads he (h2.tended hs1) ?_ ?_
      · exact (h1.trans h2).before.isSlot (hparams pair.1 hparam)
      · rcases hsource with hmem | hnil
        · exact h2.before.hasNode (hsources pair.2 hmem)
        · exact hnil ▸ (h2.tended hs1).nil
    refine hbound.next hs1 fun _ s2 h2 hs2 _ => ?_
    refine (visitBlock_leads he hs2 (h2.before.hasCall hcall1)).bind
      fun body s3 h3 ⟨hnode, hbody⟩ => ?_
    have hb3 := h1.before.trans (h2.before.trans h3.before)
    have hinputs : ∀ s4, s3.Before s4 → ∀ inputs, some sources = some inputs →
        ∀ input ∈ inputs, s4.HasNode input := by
      intro s4 hb inputs heq input hinput
      cases heq
      exact hb.hasNode ((h2.trans h3).before.hasNode (hsources input hinput))
    have hresult : ∀ s4 output, s.Before s4 →
        (s4.types.method found.method).blockResult? = some output →
        declared.output = some output := by
      intro s4 output hb hsome
      rw [hb.types.method _ hmethod] at hsome
      obtain ⟨-, other, -, hother, houtput⟩ := Method.blockResult?_eq_some.1 hsome
      rwa [Option.some.inj (hdeclared.symm.trans hother)]
    split
    next output houtput _ =>
      refine (constrainBody_leads (h3.tended hs2) (hnode _ rfl) _).bind
        fun free s4 h4 ⟨hcalls, hfrozen, haccepts⟩ =>
          .pure ⟨⟨free, rfl⟩, ?_, hinputs s4 h4.before⟩
      intro output' other hsome hother
      obtain rfl := Option.some.inj
        (houtput.symm.trans (hresult s4 output' (hb3.trans h4.before) hsome))
      have hcall3 : s3.body? call = some other := by
        rwa [Session.body?, Session.call, ← hcalls]
      obtain rfl := Option.some.inj (hbody other hcall3)
      exact ⟨hfrozen, haccepts⟩
    next hnot =>
      refine .pure ⟨⟨found.free, rfl⟩, fun output node hsome hother => ?_, hinputs s3 (.refl s3)⟩
      exact absurd (hresult s3 output hb3 hsome) (hnot node output (hbody node hother))
  next hnot =>
    refine .pure ⟨⟨found.free, rfl⟩, fun output node hsome hbody => ?_, by simp⟩
    obtain ⟨yields, declared, hyields, hdeclared, -⟩ := Method.blockResult?_eq_some.1 hsome
    obtain ⟨block, hblock, -⟩ := Session.body?_eq_some.1 hbody
    exact absurd hblock (hnot declared yields block hdeclared hyields)

/-- Of several expressions, the last one has a node of its own in the end. -/
theorem visitAll_leads {scope : ScopeId} (hplain : s.IsPlain scope) (exprs : List Expr) :
    Leads ∅ (exprs.mapM (engine.visit scope)) s A A fun nodes s' =>
      (∀ node ∈ nodes, s'.HasNode node) ∧ (nodes = [] → s' = s) ∧
        ∀ last, nodes.getLast? = some last → s.Gives s' last := by
  induction exprs generalizing s with
  | nil => exact .pure ⟨by simp, fun _ => rfl, by simp⟩
  | cons expr exprs ih =>
    rw [List.mapM_cons]
    refine (he.visit scope expr hs hplain.has (Or.inl hplain)).bind fun node s1 h1 hgives => ?_
    refine (ih (h1.tended hs) (h1.before.isPlain hplain)).bind
      fun nodes s2 h2 ⟨hnodes, hnil, hlast⟩ => .pure ⟨?_, by simp, ?_⟩
    · exact List.forall_mem_cons.2 ⟨h2.before.hasNode hgives.has, hnodes⟩
    · intro last hsome
      cases nodes with
      | nil =>
        obtain rfl : node = last := by simpa using hsome
        exact hnil rfl ▸ hgives
      | cons next rest =>
        exact (hlast last hsome).of_before h1.before

theorem visitYield_leads {scope : ScopeId} (hplain : s.IsPlain scope) (args : List Expr)
    (span : Span) :
    Leads ∅ (visitYield engine scope args span) s A A fun node s' => s.Gives s' node := by
  refine (visitAll_leads he hs hplain args).next hs
    fun values s1 h1 hs1 ⟨hvalues, _⟩ => .get_bind ?_
  dsimp only
  split
  next call block hscope hblock =>
    have hcall : s1.HasCall call := (hs1.scopes scope).call call hscope
    have hsits : block.Sits s1 := by
      rw [hscope] at hblock
      exact (hs1.calls call hcall).block block hblock
    have hbound : Leads ∅ ((supplied block.params values).forM fun pair =>
        connect engine pair.1 [pair.2]) s1 A A fun _ _ => True := by
      refine .forM _ fun pair hpair s2 h2 => ?_
      obtain ⟨hparam, hsource⟩ := mem_supplied hpair
      refine connect_leads he (h2.tended hs1) (h2.before.isSlot (hsits.params pair.1 hparam)) ?_
      rcases hsource with hmem | hnil
      · simpa using h2.before.hasNode (hvalues pair.2 hmem)
      · simpa [hnil] using (h2.tended hs1).nil
    rw [← ite_not]
    refine Leads.when_bind (fun _ => hbound) (fun _ => trivial) fun s2 h2 _ => ?_
    have hs2 := h2.tended hs1
    refine (newNode_leads hs2 span).next hs2 fun node s3 h3 hs3 ⟨hslot, hgives⟩ => ?_
    -- The block is looked at and bound while the node is locked.
    refine (Leads.holding (Q := fun result _ => result = node) (.node node) hs3 hgives.loose
      (by simp) fun hs3 => ?_).post ?_
    · refine (visitBlock_leads he hs3 ((h2.trans h3).before.hasCall hcall)).bind
        fun body s4 h4 ⟨hbody, _⟩ => ?_
      cases body with
      | none => exact .pure rfl
      | some body =>
        refine (connect_leads he (h4.tended hs3) (h4.before.isSlot hslot) ?_).bind
          fun _ s5 h5 _ => .pure rfl
        simpa using hbody body rfl
    · rintro result s4 - ⟨hloose, rfl⟩
      exact ⟨fun hold => hgives.new ((h1.trans h2).before.hasNode hold), hloose⟩
  next => exact (typedNode_gives_leads hs1 .nil span).post fun _ _ _ h => h.of_before h1.before

end Callsite.Infer
