import Callsite.Proofs.Engine.Resolution

/-!
# Recalculating calls by moves

A call that is recalculated is taken off the agenda: it has been resolved for the types that its
inputs have, or does not have to be.
-/

namespace Callsite

open Session

variable {s s' : Session} {A : Agenda} {O : Set CallId} {engine : Engine} {call : CallId}
  {signature : List TypeId} {receiver : Option TypeId} {calls : List CallId}

/-! ## Members of types -/

namespace TypeTable

variable {t t' : TypeTable} {type member : TypeId}

theorem Founded.known_of_mem_members (hf : t.Founded) (hk : t.Known type)
    (h : member ∈ t.members type) : t.Known member := by
  unfold members at h
  split at h
  next members hshape => exact hf.known_of_mem_union hshape member h
  next => exact List.mem_singleton.1 h ▸ hk

/-- Types keep their members. -/
theorem Grows.members_eq (h : t.Grows t') (hk : t.Known type) :
    t'.members type = t.members type := by
  have hgrows := h.shape type hk
  unfold members
  generalize t.shape type = shape at hgrows ⊢
  generalize t'.shape type = shape' at hgrows ⊢
  cases hgrows <;> rfl

end TypeTable

/-! ## Several changes in one -/

namespace Session

theorem changeCall_congr {f g : CallSite → CallSite} (h : f (s.call call) = g (s.call call)) :
    s.changeCall call f = s.changeCall call g := by
  have hcalls : s.calls.modify call.index f = s.calls.modify call.index g := by
    refine Array.ext_getElem? fun i => ?_
    rw [Array.getElem?_modify, Array.getElem?_modify]
    split
    next heq =>
      subst heq
      cases hsite : s.calls[call.index]? with
      | none => rfl
      | some site =>
        have hcall : s.call call = site := by rw [Session.call, hsite]; rfl
        rw [hcall] at h
        exact congrArg some h
    next => rfl
  rw [changeCall, hcalls]
  rfl

theorem withVar_withScope (s : Session) (sc : Scope) (name : String) (node : NodeId) :
    (s.withScope sc).withVar ⟨s.scopes.size⟩ name node
      = s.withScope { sc with vars := sc.vars.insert name node } := by
  have hscopes : (s.scopes.push sc).modify s.scopes.size
        (fun sc => { sc with vars := sc.vars.insert name node })
      = s.scopes.push { sc with vars := sc.vars.insert name node } := by
    grind
  simp only [withVar, withScope, hscopes]

end Session

namespace Infer

/-- A call is opened: it is about to be resolved for the types of its inputs. -/
theorem reopen_leads (hs : s.Tended A) (hcall : s.HasCall call)
    (hsignature : s.inputTypes? call = some signature) (hout : ¬ s.HasOut call)
    (hplain : s.OffLibrary call) :
    Leads (insert call ∅) (reopen call signature) s A ((A.dropCall call).withReopened call)
      fun _ s' =>
      (s'.call call).targets = none ∧ (s'.call call).signature = some signature ∧
        (s'.call call).args = (s.call call).args := by
  have hopen : call ∈ insert call (∅ : Set CallId) := Set.mem_insert _ _
  have hmove : Move (insert call ∅) (s, A)
      (s.reopened call signature, (A.dropCall call).withReopened call) :=
    .reopen hopen hcall hsignature hout hplain
  have hs1 := hmove.tended hs
  have hsite := call_reopened s hcall signature
  have hnone : ((s.reopened call signature).call call).targets = none := by rw [hsite]
  have hunwatch : ∀ s1 : Session, s1.Tended ((A.dropCall call).withReopened call) →
      s1.call call = (s.reopened call signature).call call →
      Leads (insert call ∅) (modify fun s => { s with watch := s.watch.removeCall call }) s1
        ((A.dropCall call).withReopened call) ((A.dropCall call).withReopened call) fun _ s' =>
          (s'.call call).targets = none ∧ (s'.call call).signature = some signature ∧
            (s'.call call).args = (s.call call).args := by
    intro s1 hs1 hsame
    rw [hsite] at hsame
    have htargets : (s1.call call).targets = none := by rw [hsame]
    have hsigned : (s1.call call).signature = some signature := by rw [hsame]
    have hargs : (s1.call call).args = (s.call call).args := by rw [hsame]
    exact .ok rfl (.of_move hs1 (.unwatch hopen htargets)) ⟨htargets, hsigned, hargs⟩
  refine .of_run (y := release call ((s.call call).block.bind (·.visit.node?))) rfl
    (.of_move hs hmove) ?_
  unfold release
  split
  next body hbody =>
    have hbody1 : (s.reopened call signature).body? call = some body := by
      rwa [body?, hsite]
    refine .move hs1 (.thaw hopen hnone hbody1) rfl fun hs2 _ => ?_
    refine (takeOutput_leads hs2 body).bind fun _ s3 h3 htaken => ?_
    obtain ⟨t, outputs, rfl, -⟩ := htaken
    exact hunwatch _ (h3.tended hs2) rfl
  next => exact hunwatch _ hs1 rfl

/-! ## Blocks in place of functions -/

theorem newVar_leads (hs : s.Tended A) (scope : ScopeId) (span : Span) (name : String) :
    Leads O (newVar scope span name) s A A fun node s' =>
      s'.IsSlot node ∧ .node node ∉ A.locks ∧ s'.calls = s.calls := by
  refine (ruledNode_leads hs .union span).bind fun node s1 h1 ⟨hnode, heq⟩ => ?_
  subst hnode heq
  have hslot := isSlot_withNode hs.toSound ⟨none, [], [], .union, false, span⟩
  have hfree : .node ⟨s.flow.size⟩ ∉ A.locks := hs.not_locked (Nat.lt_irrefl _)
  exact .move (h1.tended hs) (.bind scope name hslot hfree) rfl fun _ hb2 =>
    .pure ⟨hb2.isSlot hslot, hfree, rfl⟩

/-- New variables of a scope. -/
theorem newVars_leads (hs : s.Tended A) (scope : ScopeId) (span : Span) (names : List String) :
    Leads O (names.mapM (newVar scope span)) s A A fun nodes s' =>
      (∀ node ∈ nodes, s'.IsSlot node) ∧ s'.calls = s.calls := by
  refine Leads.mapM_slots (K := fun s' => s'.calls = s.calls) names rfl
    fun name _ s1 h1 hcalls => ?_
  exact (newVar_leads (h1.tended hs) scope span name).post
    fun _ _ _ ⟨hslot, _, hsame⟩ => ⟨hslot, hsame.trans hcalls⟩

section

variable (hs : s.Tended A) (hcall : s.HasCall call) (hopen : call ∈ O)
  (hnone : (s.call call).targets = none)
include hs hcall hopen hnone

/-- The block that calls a function in place of a block. -/
theorem setBlock_leads {scope : ScopeId} (hblockArg : (s.call call).blockArg ≠ none)
    (hscope : scope.index < s.scopes.size) (span : Span) (names : List String) : Leads O (do
        let params ← names.mapM (newVar scope span)
        modifyCall call fun site =>
          { site with
            block := some ⟨params, names, some (blockArgBody names site.span), scope, .pending⟩ })
      s A A fun _ s' => (s'.call call).signature = (s.call call).signature ∧
        (s'.call call).args = (s.call call).args := by
  refine (newVars_leads hs scope span names).bind fun params s1 h1 ⟨hparams, hcalls⟩ => ?_
  have hsame : s1.call call = s.call call := by rw [Session.call, Session.call, hcalls]
  let block : BlockSite :=
    ⟨params, names, some (blockArgBody names (s1.call call).span), scope, .pending⟩
  have hblock : block.Sits s1 := by
    refine ⟨hscope.trans_le h1.before.scopes_le, hparams,
      fun node hnode => absurd hnode (by simp [block]), Or.inr ?_⟩
    exact fun body hbody => Or.inr ⟨_, _, (Option.some.inj hbody).symm⟩
  have hrun : modifyCall call (fun site =>
      { site with
        block := some ⟨params, names, some (blockArgBody names site.span), scope, .pending⟩ }) s1
      = .ok () (s1.changeCall call ({ · with block := some block })) :=
    congrArg (EStateM.Result.ok ()) (Session.changeCall_congr rfl)
  have hmove : Move O (s1, A) (s1.changeCall call ({ · with block := some block }), A) :=
    .block block hblock hopen (by rw [hsame, hnone]) (by rwa [hsame]) rfl
  refine .ok hrun (.of_move (h1.tended hs) hmove) ?_
  rw [s1.call_changeCall_self _ (h1.before.hasCall hcall), hsame]
  exact ⟨rfl, rfl⟩

theorem expandBlockArg_leads : Leads O (expandBlockArg call) s A A fun _ s' =>
      (s'.call call).signature = (s.call call).signature ∧
        (s'.call call).args = (s.call call).args := by
  have hsits := hs.calls call hcall
  refine Leads.get_bind ?_
  dsimp only
  split
  next blockArg type hblockArg _ =>
    split
    next args result _ =>
      have hinput := CallSite.mem_inputs.2 (Or.inr (Or.inr hblockArg))
      let outer : Scope :=
        { s.scope (s.call call).scope with parent := some (s.call call).scope, vars := .empty }
      let inner : Scope := { outer with vars := outer.vars.insert "#fn" blockArg }
      have hentries : ∀ entry ∈ inner.vars.entries, entry.2 = blockArg := by
        intro entry hentry
        rcases NameMap.mem_insert hentry with rfl | hnil
        · rfl
        · cases hnil
      have hinner : inner.Sits s := by
        refine { hs.scopes (s.call call).scope with
          vars := fun entry hentry => ?_, parent := fun parent hparent => ?_ }
        · rw [hentries entry hentry]
          exact hsits.inputs blockArg hinput
        · cases hparent
          exact hsits.scope (by rw [hblockArg]; exact Option.some_ne_none _)
      have hmove : Move O (s, A) (s.withScope inner, A) := by
        refine .scope inner hinner fun entry hentry => ?_
        rw [hentries entry hentry]
        exact hs.not_locked_of_uses (Or.inl hinput)
      have hbound : (s.withScope outer).withVar ⟨s.scopes.size⟩ "#fn" blockArg
          = s.withScope inner := s.withVar_withScope outer "#fn" blockArg
      have hscope : (⟨s.scopes.size⟩ : ScopeId).index < (s.withScope inner).scopes.size := by simp
      refine .of_run ?_ (.of_move hs hmove) (setBlock_leads (hmove.tended hs) hcall hopen hnone
        ?_ hscope (s.call call).span (blockArgNames args.length))
      · rw [← hbound]
        rfl
      · exact hblockArg ▸ Option.some_ne_none _
    next => exact .fail _ _
  next => exact .pure ⟨rfl, rfl⟩

end

theorem watchArguments_leads (hs : s.Tended A) (hcall : s.HasCall call) :
    Leads O (watchArguments call) s A A fun _ _ => True := by
  refine Leads.get_bind ?_
  split
  next =>
    refine .forM _ fun member _ s1 h1 => ?_
    split
    next base hshape =>
      have hbase := h1.before.types.known (hs.types.known_of_hierarchy hshape)
      exact .ok rfl (.of_move (h1.tended hs) (.watch (h1.before.hasCall hcall) hbase)) trivial
    next => exact .pure trivial
  next => exact .pure trivial

/-! ## Resolving a call -/

/-- The type that a call has been resolved for is the one its receiver had before. -/
theorem receiver_of_resolvedType? {type : TypeId} (hcall : s.HasCall call) (hb : s.Before s')
    (hsignature : s.inputTypes? call = some signature)
    (hreceiver : receiver = (s.call call).receiver.bind s.typeOf)
    (hsigned : (s'.call call).signature ≠ none → (s'.call call).signature = some signature)
    (htype : s'.resolvedType? call = some type) :
    receiver = some type ∧ (s.call call).receiver ≠ none ∧ (s'.call call).signature ≠ none := by
  obtain ⟨types, node, htypes, hnode, hat⟩ := resolvedType?_eq_some htype
  have hne : (s'.call call).signature ≠ none := by simp [htypes]
  obtain rfl : types = signature := Option.some.inj (htypes.symm.trans (hsigned hne))
  rw [(hb.call call hcall).receiver] at hnode
  rw [hb.args_length hcall, typeOf_receiver hsignature hnode] at hat
  exact ⟨by rw [hreceiver, hnode]; exact hat, by simp [hnode], hne⟩

section Found

variable {receiver : Option TypeId} {ids : List InstanceId} {s1 s2 : Session}

variable (hfinding : Finding s1 s2 A call receiver ids) (hcall : s.HasCall call)
  (hb1 : s.Before s1) (hs1 : s1.Sound) (hb2 : s1.Before s2)
  (hsignature : s.inputTypes? call = some signature)
  (hreceiver : receiver = (s.call call).receiver.bind s.typeOf)
  (hknown : ∀ type, receiver = some type → s.types.Known type)
  (hsigned : (s2.call call).signature ≠ none → (s2.call call).signature = some signature)
  (hnone : (s2.call call).targets = none)
include hfinding hcall hb1 hs1 hb2 hsignature hreceiver hknown hsigned hnone

/-- What spans every hierarchy in the type of the receiver covers the call. -/
theorem Finding.covers : s2.Covers A.gaps call ids := by
  intro type htype
  obtain ⟨htyped, hnode, hne⟩ :=
    receiver_of_resolvedType? hcall (hb1.trans hb2) hsignature hreceiver hsigned htype
  have hknown1 := hb1.types.known (hknown type htyped)
  refine ⟨hb2.types.known hknown1, fun member hmember base hbase => ?_⟩
  rw [hb2.types.members_eq hknown1] at hmember
  have hmember1 := hs1.types.known_of_mem_members hknown1 hmember
  have hshape := (hb2.types.shape member hmember1).eq_of_fixed (by simp [hbase]) (by simp [hbase])
  have hreceiver1 : (s1.call call).receiver ≠ none := by rwa [(hb1.call call hcall).receiver]
  exact hfinding.spans type htyped hreceiver1 member hmember base (hshape ▸ hbase) hnone hne

/-- If nothing is found and the call is not deferred, there is nothing to be found. -/
theorem Finding.vacates (hnil : ids = []) :
    (s2.call call).deferred = true ∨ (s2.call call).signature = none ∨
      s2.Vacates A.gaps call := by
  by_cases hdeferred : (s2.call call).deferred = true
  · exact Or.inl hdeferred
  refine Or.inr (or_iff_not_imp_left.2 fun hne => ?_)
  have hvacant : ∀ owner, s2.Lacks A call owner → s2.IsVacant A.gaps call owner :=
    fun owner hlacks => (hlacks hnone).resolve_left hdeferred hne
  constructor
  case receiver =>
    intro type htype
    obtain ⟨htyped, -, -⟩ :=
      receiver_of_resolvedType? hcall (hb1.trans hb2) hsignature hreceiver hsigned htype
    have hknown1 := hb1.types.known (hknown type htyped)
    refine ⟨hb2.types.known hknown1, fun member hmember => hvacant member ?_⟩
    rw [hb2.types.members_eq hknown1] at hmember
    exact hfinding.lacks hnil type htyped member hmember
  case self =>
    intro hself
    have hcall1 := hb1.hasCall hcall
    have hlater := hb2.call call hcall1
    have hreceiver0 : receiver = none := by
      rw [hreceiver, ← ((hb1.trans hb2).call call hcall).receiver, hself]
      rfl
    obtain ⟨owner, hlacks, howner⟩ := hfinding.lacksSelf hnil hreceiver0
    refine ⟨owner, hvacant owner hlacks, fun hname => ?_⟩
    rw [hlater.name] at hname
    rw [howner hname, hlater.scope, hb2.selfType _ (hs1.calls call hcall1).written]

end Found

section

variable (he : engine.Guides) (hs : s.Tended A) (hcall : s.HasCall call)
  (hplain : s.OffLibrary call) (hreceiver : receiver = (s.call call).receiver.bind s.typeOf)
  (hknown : ∀ type, receiver = some type → s.types.Known type)
include he hs hcall hplain hreceiver hknown

theorem resolveFor_leads (hsignature : s.inputTypes? call = some signature)
    (hout : ¬ s.HasOut call) : Leads (insert call ∅) (resolveFor engine call receiver signature) s A
      ((A.dropCall call).withReopened call) fun _ s' => (s'.call call).targets ≠ none := by
  have hopen : call ∈ insert call (∅ : Set CallId) := Set.mem_insert _ _
  have hempty : (∅ : Set CallId) ⊆ insert call ∅ := Set.empty_subset _
  have htyped := inputTypes?_ne_none_iff.1 (by rw [hsignature]; exact Option.some_ne_none _)
  refine (reopen_leads hs hcall hsignature hout hplain).next hs
    fun _ s1 h1 hs1 ⟨hnone1, hsigned1, hargs1⟩ => ?_
  have hcall1 := h1.before.hasCall hcall
  refine (expandBlockArg_leads hs1 hcall1 hopen hnone1).next hs1
    fun _ s2 h2 hs2 ⟨hsigned2, hargs2⟩ => ?_
  have hcall2 := h2.before.hasCall hcall1
  refine (watchArguments_leads hs2 hcall2).bind_within hempty fun _ s3 h3 _ => ?_
  have hs3 := h3.tended hs2
  have hb3 := h1.before.trans (h2.before.trans h3.before)
  have hcall3 := hb3.hasCall hcall
  have hreceiver3 : receiver = none → (s3.call call).receiver = none := by
    intro hnone
    rw [(hb3.call call hcall).receiver]
    by_contra hsome
    obtain ⟨node, hnode⟩ := Option.ne_none_iff_exists'.1 hsome
    rw [hreceiver, hnode] at hnone
    exact htyped node (CallSite.mem_inputs.2 (Or.inr (Or.inl hnode))) hnone
  have htyped3 : (s3.call call).receiver = none →
      ∀ arg ∈ (s3.call call).argNodes, s3.typeOf arg ≠ none := by
    intro hnone arg harg
    rw [(hb3.call call hcall).receiver] at hnone
    rw [CallSite.argNodes, (hb3.call call hcall).args hnone] at harg
    refine hb3.flow.typed arg (htyped arg ?_)
    exact CallSite.mem_inputs.2 (Or.inl (List.mem_map.1 harg))
  refine (resolve_leads he hs3 hcall3 hreceiver3 htyped3).bind_within hempty
    fun ids s4 h4 hfinding => .get_bind ?_
  have hs4 := h4.tended hs3
  have hb4 := hb3.trans h4.before
  have hcall4 := hb4.hasCall hcall
  dsimp only
  split
  next hnone =>
    have hnone4 : (s4.call call).targets = none := by simpa using hnone
    have hstays := (h3.trans h4).keeps call hcall2 (Set.notMem_empty call) hnone4
    have hsigned4 : (s4.call call).signature ≠ none → (s4.call call).signature = some signature :=
      fun hne => (hstays.signature hne).trans (hsigned2.trans hsigned1)
    have hcovers := hfinding.covers hcall hb3 hs3.toSound h4.before hsignature hreceiver hknown
      hsigned4 hnone4
    have hout4 : ¬ s4.HasOut call := by rwa [hb4.hasOut_iff hcall]
    have htyped4 : s4.inputTypes? call ≠ none := by
      rw [inputTypes?_ne_none_iff, hb4.inputs_eq hcall (hstays.args.trans (hargs2.trans hargs1))]
      exact fun input hinput => hb4.flow.typed input (htyped input hinput)
    have hmove : Move (insert call ∅) (s4, (A.dropCall call).withReopened call)
        (s4.resolvedTo call ids, _) :=
      .resolve hcall4 hnone4 hout4 htyped4 (fun id hid => (hfinding.fits id hid).has) hcovers
        (fun id hid => (hfinding.fits id hid).free)
        (hfinding.vacates hcall hb3 hs3.toSound h4.before hsignature hreceiver hknown hsigned4
          hnone4)
        fun id hid => (hfinding.fits id hid).held hnone4
    refine .of_run (y := update engine (s4.call call).node) rfl (.of_move hs4 hmove) ?_
    have hresolved : ((s4.resolvedTo call ids).call call).targets ≠ none := by
      rw [targets_resolvedTo s4 _ hcall4]
      exact Option.some_ne_none _
    exact update_resolved_leads he (hmove.tended hs4) (hmove.before.hasCall hcall4) hresolved
  next hsome => exact .pure (by simpa using hsome)

/-- A call that is resolved again counts as kept, and has targets in the end. -/
theorem resolveFor_closed_leads (hsignature : s.inputTypes? call = some signature)
    (hout : ¬ s.HasOut call) :
    Leads ∅ (resolveFor engine call receiver signature) s A (A.dropCall call)
      fun _ s' => (s'.call call).targets ≠ none := by
  refine Leads.close call ((resolveFor_leads he hs hcall hplain hreceiver hknown hsignature
    hout).of_end fun _ s' h hne => ⟨?_, hne⟩) fun _ _ => id
  exact (h.trans (.of_move (h.tended hs) (.close hne))).wait hs
    (Agenda.dropReopened_withReopened_le _ call)

theorem recalculatePlain_leads :
    Leads ∅ (recalculatePlain engine call receiver) s A (A.dropCall call) fun _ _ => True := by
  refine Leads.when_bind
    (P := fun s' => s = s' ∧
      (((s.call call).receiver.isNone || receiver.isSome) = true → ¬ s.HasOut call))
    (fun _ => (forbidOut_leads call).post fun _ _ _ hforbidden =>
      ⟨hforbidden.1, fun _ => hforbidden.2⟩)
    (fun hcheck => ⟨rfl, fun h => absurd h hcheck⟩) fun s1 _ hsame => ?_
  obtain ⟨rfl, hout⟩ := hsame
  -- If all inputs have types, `out` arguments were looked for.
  have hlooked : s.inputTypes? call = none ∨ ¬ s.HasOut call := by
    refine or_iff_not_imp_left.2 fun hsome => hout ?_
    cases hnode : (s.call call).receiver with
    | none => rfl
    | some node =>
      have htyped := inputTypes?_ne_none_iff.1 hsome node
        (CallSite.mem_inputs.2 (Or.inr (Or.inl hnode)))
      have hsome : receiver.isSome = true := by
        rw [hreceiver, hnode]
        exact Option.isSome_iff_ne_none.2 htyped
      rw [hsome]
      rfl
  have hcurrent : s.inputTypes? call = none ∨ s.HasDeadArg call ∨
      (s.call call).signature = s.inputTypes? call → Episode ∅ (s, A) (s, A.dropCall call) := by
    intro h
    refine .of_move hs (.current (Or.inr (Or.inr ?_)) fun _ => h.imp_right (Or.imp_left ?_))
    · exact h.elim Or.inl fun h => hlooked.imp_right fun hout => ⟨hout, h⟩
    · exact fun hdead => ⟨hdead, hplain⟩
  refine Leads.get_bind ?_
  dsimp only
  split
  next hdead =>
    have hdead : s.HasDeadArg call := by
      obtain ⟨arg, harg, htype⟩ := List.any_eq_true.1 hdead
      exact ⟨arg, harg, by simpa using htype⟩
    have hepisode := hcurrent (Or.inr (Or.inl hdead))
    exact .of_run rfl hepisode (setType_noReturn_leads he (hepisode.tended hs) hcall hdead)
  next =>
    split
    next hnone => exact .of_run rfl (hcurrent (Or.inl hnone)) (.pure trivial)
    next signature hsignature =>
      split
      next hsame =>
        exact .of_run rfl (hcurrent (Or.inr (Or.inr (hsame.trans hsignature.symm)))) (.pure trivial)
      next =>
        have hout : ¬ s.HasOut call := hlooked.resolve_left (by rw [hsignature]; simp)
        exact (resolveFor_closed_leads he hs hcall hplain hreceiver hknown hsignature hout).post
          fun _ _ _ _ => trivial

end

theorem recalculateWith_leads (he : engine.Guides) (hs : s.Tended A) (hcall : s.HasCall call) :
    Leads ∅ (recalculateWith engine call) s A (A.dropCall call) fun _ _ => True := by
  refine Leads.get_bind ?_
  dsimp only
  split
  next type htype =>
    refine (known_leads type).bind fun _ s1 _ hchecked => ?_
    obtain ⟨rfl, hknown⟩ := hchecked
    split
    next info hshape =>
      exact recalculateForeign_leads he hs hcall htype hshape
    next hshape =>
      refine recalculatePlain_leads he hs hcall ?_ rfl fun other hother => ?_
      · intro receiver other hreceiver hother
        rw [hreceiver] at htype
        obtain rfl := Option.some.inj (htype.symm.trans hother)
        exact ⟨hknown, fun hlibrary => hlibrary.elim hshape⟩
      · exact Option.some.inj (htype.symm.trans hother) ▸ hknown
  next hnone =>
    refine recalculatePlain_leads he hs hcall ?_ rfl fun type htype => ?_
    · intro receiver other hreceiver hother
      rw [hreceiver] at hnone
      exact absurd (hnone.symm.trans hother) (by simp)
    · exact absurd (hnone.symm.trans htype) (by simp)

end Infer

/-! ## New classes -/

namespace SubclassWatch

variable {w : SubclassWatch} {base : TypeId}

theorem mem_addCalls {found : List CallId} :
    call ∈ addCalls found calls ↔ call ∈ found ∨ call ∈ calls := by
  unfold addCalls
  induction calls generalizing found with
  | nil => simp
  | cons first rest ih =>
    rw [List.foldl_cons, ih]
    split
    next hcontains =>
      grind
    next => grind

theorem Agrees.mem_observersOfAny (h : w.Agrees) {bases : List TypeId} :
    call ∈ w.observersOfAny bases ↔ ∃ base ∈ bases, (call, base) ∈ w.pairs := by
  have hfold : ∀ found : List CallId,
      call ∈ bases.foldl (fun found base => addCalls found (w.observers base)) found ↔
        call ∈ found ∨ ∃ base ∈ bases, (call, base) ∈ w.pairs := by
    induction bases with
    | nil => simp
    | cons base rest ih =>
      intro found
      have hobservers : call ∈ w.observers base ↔ (call, base) ∈ w.pairs := h.mem_iff call base
      rw [List.foldl_cons, ih, mem_addCalls, hobservers]
      simp [or_assoc]
  simpa [observersOfAny] using hfold []

end SubclassWatch

namespace Agenda

/-- The gaps of several calls are dropped. -/
def dropGapsOfAny (A : Agenda) (calls : List CallId) : Agenda :=
  { A with gaps := {gap ∈ A.gaps | gap.1 ∉ calls} }

theorem dropGapsOfAny_dropGapsOf_le (A : Agenda) (call : CallId) (calls : List CallId) :
    (A.dropGapsOf call).dropGapsOfAny calls ≤ A.dropGapsOfAny (call :: calls) := by
  refine ⟨subset_rfl, subset_rfl, subset_rfl, ?_, subset_rfl, subset_rfl⟩
  rintro gap ⟨⟨hgap, hne⟩, hrest⟩
  exact ⟨hgap, by simp [hne, hrest]⟩

end Agenda

namespace Infer

/-- Calls that are resolved again have no gaps. -/
theorem forgetAll_leads (he : engine.Guides) (hs : s.Tended A)
    (hcalls : ∀ call ∈ calls, s.HasCall call) :
    Leads ∅ (calls.forM (resolveAnew engine)) s A (A.dropGapsOfAny calls) fun _ _ => True := by
  induction calls generalizing s A with
  | nil =>
    have hle : A ≤ A.dropGapsOfAny [] :=
      { A.le_refl with gaps := fun gap hgap => ⟨hgap, List.not_mem_nil⟩ }
    exact (Leads.pure trivial).wait hs hle
  | cons call calls ih =>
    have hcall := hcalls call List.mem_cons_self
    have hfirst : Leads ∅ (resolveAnew engine call) s A (A.dropGapsOf call) fun _ _ => True := by
      refine .move hs (.forget call) rfl fun hs1 hb1 => ?_
      exact (he.recalculate call hs1 (hb1.hasCall hcall)).wait hs1
        ((A.dropGapsOf call).dropCall_withCall_le call)
    refine hfirst.bind fun _ s1 h1 _ => ?_
    refine (ih (h1.tended hs) fun other hother => ?_).wait (h1.tended hs)
      (A.dropGapsOfAny_dropGapsOf_le call calls)
    exact h1.before.hasCall (hcalls other (List.mem_cons_of_mem call hother))

/-- The calls that watch a base above a new class are told of it. -/
theorem noticeSubclass_leads {s0 : Session} {t : TypeTable} {cls : TypeId} (he : engine.Guides)
    (hs : s.Tended (A.withGaps s0 t cls))
    (habove : ∀ call base, (call, base) ∈ s0.watch.pairs → t.StandsBelow base cls →
      s.types.StandsBelow base cls ∧ base ≠ cls) :
    Leads ∅ (noticeSubclass engine cls) s (A.withGaps s0 t cls) A fun _ _ => True := by
  have hunwatched := Episode.of_move (O := ∅) hs .unwatched
  have hs1 := hunwatched.tended hs
  refine .of_run rfl hunwatched ?_
  refine (forgetAll_leads he hs1 fun call hcall => ?_).wait hs1
    ⟨subset_rfl, subset_rfl, subset_rfl, ?_, subset_rfl, subset_rfl⟩
  · obtain ⟨base, -, hpair⟩ := hs.watch.agrees.mem_observersOfAny.1 hcall
    exact (hs.watched hpair).1
  · rintro ⟨call, base, other⟩ ⟨⟨hgap, hpair⟩, hnot⟩
    rcases hgap with hold | ⟨hwatched, hbelow, -⟩
    · exact hold
    · obtain ⟨hbelow', hne⟩ := habove call base hwatched hbelow
      have hmem := TypeTable.mem_ancestors_of_standsBelow hs.types hbelow' hne
      exact absurd (hs.watch.agrees.mem_observersOfAny.2 ⟨base, hmem, hpair⟩) hnot

end Infer

end Callsite
