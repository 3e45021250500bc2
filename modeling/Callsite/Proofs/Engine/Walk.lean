import Callsite.Proofs.Engine.Recalculation

/-!
# Walking through expressions by moves

Every expression is looked at by moves that leave the agenda as it was: a call that is met is put
there and resolved at once, and the gaps that a new class opens are closed when its body has been
walked through.  An engine of any fuel therefore guides a run, and a whole program is checked by
moves from one session without open ends to another.
-/

namespace Callsite

open TypeTable

variable {α : Type} {name : String} {depth : Nat} {node : NodeId} {s1 s2 : Session}
  {receiver : Option NodeId} {args : List Argument} {call : Call} {expr : Expr}
  {options : InferenceOptions}

variable {s s' : Session} {A : Agenda} {O : Set CallId} {engine : Engine} {scope : ScopeId}

/-! ## Variables that are seen from a scope -/

theorem NameMap.mem_of_get? {m : NameMap α} {value : α} (h : m.get? name = some value) :
    (name, value) ∈ m.entries := by
  obtain ⟨front, back, heq, -⟩ := List.lookup_eq_some_iff.1 h
  simp [heq]

/-- A variable that is seen from a scope is one of that scope or of one around it. -/
theorem Session.mem_vars_of_findVarWithin (h : s.findVarWithin name depth scope = some node) :
    ∃ around, (name, node) ∈ (s.scope around).vars.entries := by
  induction depth generalizing scope with
  | zero => simp [findVarWithin] at h
  | succ depth ih =>
    rw [findVarWithin] at h
    split at h
    next found _ hget =>
      cases h
      exact ⟨scope, NameMap.mem_of_get? hget⟩
    next => exact ih h
    next => simp at h

namespace Session.Sound

theorem hasNode_of_findVarWithin (hs : s.Sound) (h : s.findVarWithin name depth scope = some node) :
    s.HasNode node := by
  obtain ⟨around, hmem⟩ := mem_vars_of_findVarWithin h
  exact (hs.scopes around).vars _ hmem

/-- What is seen from a plain scope may be assigned to: the scopes around it are plain too. -/
theorem isSlot_of_findVarWithin (hs : s.Sound) (hplain : s.IsPlain scope)
    (h : s.findVarWithin name depth scope = some node) : s.IsSlot node := by
  induction depth generalizing scope with
  | zero => simp [findVarWithin] at h
  | succ depth ih =>
    rw [findVarWithin] at h
    split at h
    next found _ hget =>
      cases h
      exact hplain.vars _ (NameMap.mem_of_get? hget)
    next parent _ hparent => exact ih ((hs.scopes scope).parent parent hparent) h
    next => simp at h

end Session.Sound

/-- A computation for an expression that may be left out. -/
theorem Leads.mapM_option {β : Type} {f : α → Infer β} {P : β → Session → Prop} (o : Option α)
    (hf : ∀ a, o = some a → Leads O (f a) s A A P) :
    Leads O (o.mapM f) s A A fun result s' => ∀ b, result = some b → P b s' := by
  cases o with
  | none => exact .pure (by simp)
  | some a =>
    refine (hf a rfl).bind fun b s1 _ hb => .pure fun b' hb' => ?_
    exact Option.some.inj hb' ▸ hb

namespace Infer

theorem denoteIn_leads (hs : s.Tended A) (scope : ScopeId) (span : Span) (type : TypeExpr) :
    Leads O (denoteIn scope span type) s A A fun _ _ => True :=
  (denoting_leads hs (denote_denotes hs.types _ _ span type)).post
    fun _ _ _ _ => trivial

/-- A variable is in use, so that it is not locked. -/
theorem declareVar_leads (hs : s.Tended A) (hplain : s.IsPlain scope) (name : String)
    (span : Span) :
    Leads O (declareVar scope name span) s A A fun node s' =>
      s'.IsSlot node ∧ .node node ∉ A.locks := by
  refine Leads.get_bind ?_
  split
  next node hfound =>
    obtain ⟨around, hbound⟩ := Session.mem_vars_of_findVarWithin hfound
    exact .pure ⟨hs.isSlot_of_findVarWithin hplain hfound, hs.not_locked_of_bound hbound⟩
  next =>
    exact (newVar_leads hs scope span name).post fun _ _ _ ⟨hslot, hfree, _⟩ => ⟨hslot, hfree⟩

/-- A node that depends on others is locked until it is bound to them. -/
theorem derived_leads {inputs : List NodeId} (he : engine.Guides) (hs : s.Tended A)
    (hinputs : ∀ input ∈ inputs, s.HasNode input) (rule : Rule) (span : Span) :
    Leads ∅ (derived engine rule span inputs) s A A fun node s' => s.Gives s' node := by
  refine (ruledNode_leads hs rule span).bind fun node s1 h1 ⟨hnode, hs1⟩ => ?_
  subst hnode hs1
  have hslot := isSlot_withNode hs.toSound ⟨none, [], [], rule, false, span⟩
  have hgives := gives_withNode hs.toSound ⟨none, [], [], rule, false, span⟩
  refine (Leads.holding (.node ⟨s.flow.size⟩) (h1.tended hs) hgives.loose (by simp) fun hs1 =>
    connect_leads he hs1 hslot fun input hinput => h1.before.hasNode (hinputs input hinput)).bind
      fun _ s2 _ hlocked => ?_
  exact .pure ⟨hgives.new, hlocked.1⟩

/-! ## Calls -/

/-- An argument that a call may have: a new node, or a variable that is not locked. -/
structure Passes (s s' : Session) (A : Agenda) (arg : Argument) : Prop where
  has : s'.HasNode arg.node
  slot : arg.isOut = true → s'.IsSlot arg.node ∧ .node arg.node ∉ A.locks
  gives : arg.isOut = false → s.Gives s' arg.node

/-- Arguments that a call may have.  A node that is new is not given twice. -/
structure PassesAll (s s' : Session) (A : Agenda) (args : List Argument) : Prop where
  has : ∀ arg ∈ args, s'.HasNode arg.node
  slot : ∀ arg ∈ args, arg.isOut = true → s'.IsSlot arg.node
  new : ∀ arg ∈ args, arg.isOut = false → ¬ s.HasNode arg.node
  free : ∀ arg ∈ args, .node arg.node ∉ A.locks
  apart :
    args.Pairwise fun arg other =>
      arg.isOut = false ∨ other.isOut = false → arg.node ≠ other.node

theorem PassesAll.cons {first : Argument} {rest : List Argument} (hs : s.Tended A)
    (h : Passes s s1 A first) (hb1 : s.Before s1) (hb2 : s1.Before s2)
    (hrest : PassesAll s1 s2 A rest)
    (hlocked : first.isOut = false → ∀ arg ∈ rest, first.node ≠ arg.node) :
    PassesAll s s2 A (first :: rest) where
  has := List.forall_mem_cons.2 ⟨hb2.hasNode h.has, hrest.has⟩
  slot := List.forall_mem_cons.2 ⟨fun hout => hb2.isSlot (h.slot hout).1, hrest.slot⟩
  new := List.forall_mem_cons.2 ⟨fun hout => (h.gives hout).new, fun arg hmem hout hold =>
    hrest.new arg hmem hout (hb1.hasNode hold)⟩
  free := by
    refine List.forall_mem_cons.2 ⟨?_, hrest.free⟩
    cases hout : first.isOut with
    | true => exact (h.slot hout).2
    | false => exact hs.not_locked (h.gives hout).new
  apart := by
    refine List.pairwise_cons.2 ⟨fun arg harg hplain => ?_, hrest.apart⟩
    cases hout : first.isOut with
    | false => exact hlocked hout arg harg
    | true =>
      rintro heq
      refine hrest.new arg harg (hplain.resolve_left (by simp [hout])) ?_
      exact heq ▸ h.has

/-- Arguments are looked at in order.  A new node is locked as soon as it is there, so that no
later argument is given the same one. -/
theorem passAll_leads {α : Type} {f : α → Infer Argument} (l : List α) (hs : s.Tended A)
    (hf : ∀ a ∈ l, ∀ {B : Agenda} {s1 : Session}, s1.Tended B → s.Before s1 →
      Leads ∅ (f a) s1 B B fun arg s' => Passes s1 s' B arg) :
    Leads ∅ (l.mapM f) s A A fun args s' => PassesAll s s' A args := by
  induction l generalizing s A with
  | nil => exact .pure ⟨by simp, by simp, by simp, by simp, .nil⟩
  | cons a l ih =>
    rw [List.mapM_cons]
    refine (hf a List.mem_cons_self hs (.refl s)).next hs fun first s1 h1 hs1 hfirst => ?_
    have hrest : ∀ {B : Agenda}, s1.Tended B →
        Leads ∅ (l.mapM f) s1 B B fun args s' => PassesAll s1 s' B args := fun hs1 =>
      ih hs1 fun a' ha' _ _ hs2 hb2 =>
        hf a' (List.mem_cons_of_mem a ha') hs2 (h1.before.trans hb2)
    cases hout : first.isOut with
    | true =>
      refine (hrest hs1).bind fun rest s2 h2 hpasses => .pure ?_
      exact .cons hs hfirst h1.before h2.before hpasses fun hplain => by simp [hout] at hplain
    | false =>
      refine (Leads.holding (.node first.node) hs1 (hfirst.gives hout).loose (by simp)
        fun hs1 => hrest hs1).bind fun rest s2 h2 ⟨_, hpasses⟩ => .pure ?_
      refine .cons hs hfirst h1.before h2.before ?_ fun _ arg harg heq => ?_
      · refine ⟨hpasses.has, hpasses.slot, hpasses.new, fun arg harg hlock => ?_, hpasses.apart⟩
        exact hpasses.free arg harg (Or.inr hlock)
      · exact hpasses.free arg harg (Or.inl (congrArg Lock.node heq.symm))

theorem visitArg_leads (he : engine.Guides) (hs : s.Tended A) (hscope : scope.index < s.scopes.size)
    (arg : Expr) (h : s.IsPlain scope ∨ arg.IsRead) :
    Leads ∅ (visitArg engine scope arg) s A A fun argument s' => Passes s s' A argument := by
  have hvisit : Leads ∅ (do pure ⟨← engine.visit scope arg, false, arg.span⟩ : Infer Argument)
      s A A fun argument s' => Passes s s' A argument := by
    refine (he.visit scope arg hs hscope (h.imp_right Or.inl)).bind fun node s1 _ hgives => ?_
    exact .pure ⟨hgives.has, fun hout => absurd hout (by simp), fun _ => hgives⟩
  unfold visitArg
  split
  next name hform =>
    have hplain : s.IsPlain scope := h.resolve_right fun ⟨var, hvar⟩ => by simp [hform] at hvar
    refine (declareVar_leads hs hplain name arg.span).bind fun node s1 _ ⟨hslot, hfree⟩ => ?_
    exact .pure ⟨hslot.has, fun _ => ⟨hslot, hfree⟩, fun hout => absurd hout (by simp)⟩
  next => exact hvisit

theorem superArgs_leads (he : engine.Guides) (hs : s.Tended A) (scope : ScopeId) (span : Span) :
    Leads ∅ (superArgs engine scope span) s A A fun args s' => PassesAll s s' A args := by
  refine Leads.get_bind ?_
  dsimp only
  split
  next => exact .pure ⟨by simp, by simp, by simp, by simp, .nil⟩
  next method _ =>
    refine passAll_leads _ hs fun var hvar _ s1 hs1 hb1 => ?_
    obtain ⟨param, -, hget⟩ := List.mem_filterMap.1 hvar
    have hnode : s.HasNode var := (hs.scopes _).vars _ (NameMap.mem_of_get? hget)
    refine (derived_leads he hs1 (by simpa using hb1.hasNode hnode) .union span).bind
      fun node s2 _ hgives => ?_
    exact .pure ⟨hgives.has, fun hout => absurd hout (by simp), fun _ => hgives⟩

theorem childScope_leads (hs : s.Tended A) (hplain : s.IsPlain scope) :
    Leads O (childScope scope) s A A fun inner s' => s'.IsPlain inner :=
  .get_bind (.post (pushScope_leads hs rfl
    { hs.scopes scope with
      vars := by simp [NameMap.empty]
      parent := fun _ hparent => Option.some.inj hparent ▸ hplain }) fun _ _ _ h => h.1)

theorem openBlock_leads (hs : s.Tended A) (hplain : s.IsPlain scope) (span : Span) (block : Block) :
    Leads O (openBlock scope span block) s A A fun site s' =>
      site.Sits s' ∧ site.visit = .pending := by
  refine (childScope_leads hs hplain).bind fun inner s1 h1 hinner => ?_
  refine (newVars_leads (h1.tended hs) inner span block.params).bind
    fun params s2 h2 ⟨hparams, _⟩ => ?_
  have hplain2 := h2.before.isPlain hinner
  exact .pure
    ⟨⟨hplain2.has, hparams, fun node hnode => absurd hnode (by simp), Or.inl hplain2⟩, rfl⟩

/-- A call whose parts assign to no variable. -/
structure IsPassiveCall (call : Call) : Prop where
  receiver : ∀ expr, call.receiver = some expr → expr.IsRead
  args : ∀ arg ∈ call.args, arg.IsRead
  block : call.block = none
  blockArg : call.blockArg = none

/-- The parts of a call that are there before its block: the receiver is older than the arguments
that are new. -/
structure Prepared (s : Session) (A : Agenda) (receiver : Option NodeId) (args : List Argument) :
    Prop where
  called : ∀ node, receiver = some node → s.HasNode node ∧ .node node ∉ A.locks
  has : ∀ arg ∈ args, s.HasNode arg.node ∧ .node arg.node ∉ A.locks
  slot : ∀ arg ∈ args, arg.isOut = true → s.IsSlot arg.node
  older : ∀ arg ∈ args, arg.isOut = false → receiver ≠ some arg.node
  apart :
    args.Pairwise fun arg other =>
      arg.isOut = false ∨ other.isOut = false → arg.node ≠ other.node

theorem PassesAll.prepared (h : PassesAll s1 s2 A args) (hs : s.Tended A) (hb : s1.Before s2)
    (hreceiver : ∀ node, receiver = some node → s.Gives s1 node) : Prepared s2 A receiver args where
  called := fun node hnode =>
    ⟨hb.hasNode (hreceiver node hnode).has, hs.not_locked (hreceiver node hnode).new⟩
  has := fun arg harg => ⟨h.has arg harg, h.free arg harg⟩
  slot := h.slot
  older := fun arg harg hout hnode => h.new arg harg hout (hreceiver _ hnode).has
  apart := h.apart

/-- A new node is given to a call once. -/
theorem Prepared.apart_at {blockArg : Option NodeId} {i : Nat} {arg : Argument} {site : CallSite}
    (h : Prepared s A receiver args) (hblockArg : ∀ node, blockArg = some node → ¬ s.HasNode node)
    (hsite : site.args = args ∧ site.receiver = receiver ∧ site.blockArg = blockArg)
    (harg : args[i]? = some arg) (hout : arg.isOut = false) : site.Apart i arg.node := by
  obtain ⟨rfl, rfl, rfl⟩ := hsite
  have hmem := List.mem_of_getElem? harg
  refine ⟨fun j other hother hne heq => ?_, h.older arg hmem hout, fun hnode => ?_⟩
  · obtain ⟨hi, rfl⟩ := List.getElem?_eq_some_iff.1 harg
    obtain ⟨hj, rfl⟩ := List.getElem?_eq_some_iff.1 hother
    rcases Nat.lt_or_gt_of_ne hne with hlt | hlt
    · exact List.pairwise_iff_getElem.1 h.apart j i hj hi hlt (Or.inr hout) heq
    · exact List.pairwise_iff_getElem.1 h.apart i j hi hj hlt (Or.inl hout) heq.symm
  · exact hblockArg _ hnode (h.has arg hmem).1

section

variable (he : engine.Guides) (hs : s.Tended A) (hscope : scope.index < s.scopes.size)
  (h : s.IsPlain scope ∨ IsPassiveCall call)
include he hs hscope h

/-- A call with its receiver and its arguments becomes a call site, which is resolved at once. -/
theorem enterCall_leads (hprepared : Prepared s A receiver args) (span : Span) :
    Leads ∅ (enterCall engine scope call span receiver args) s A A
      fun node s' => s.Gives s' node := by
  have hopens : ∀ block, call.block = some block → s.IsPlain scope := fun block hblock =>
    h.resolve_right fun hpassive => by simp [hpassive.block] at hblock
  have hpasses : ∀ expr, call.blockArg = some expr → s.IsPlain scope := fun expr hexpr =>
    h.resolve_right fun hpassive => by simp [hpassive.blockArg] at hexpr
  refine (Leads.mapM_option _ fun block hblock =>
    openBlock_leads hs (hopens block hblock) span block).next hs fun block s1 h1 hs1 hblock => ?_
  have hvisited : Leads ∅ (call.blockArg.mapM (engine.visit scope)) s1 A A fun blockArg s' =>
      ∀ node, blockArg = some node → s1.Gives s' node ∧ s'.IsPlain scope := by
    refine Leads.mapM_option (P := fun node s' => s1.Gives s' node ∧ s'.IsPlain scope) _
      fun expr hexpr => ?_
    have hplain := h1.before.isPlain (hpasses expr hexpr)
    exact (he.visit scope expr hs1 hplain.has (Or.inl hplain)).post
      fun node s2 h2 hgives => ⟨hgives, h2.before.isPlain hplain⟩
  refine hvisited.next hs1 fun blockArg s2 h2 hs2 hblockArg => ?_
  have hb2 := h1.before.trans h2.before
  let site : CallSite := { CallSite.fresh ⟨s2.flow.size⟩ call.name receiver scope span with
    args, block, blockArg, hasParens := call.hasParens }
  let observed := receiver.toList ++ args.map (·.node) ++ blockArg.toList
  have hnewBlockArg : ∀ node, blockArg = some node → ¬ s.HasNode node := fun node hnode hold =>
    (hblockArg node hnode).1.new (h1.before.hasNode hold)
  have hinputs : ∀ input ∈ site.inputs, s2.HasNode input ∧ .node input ∉ A.locks := by
    intro input hinput
    rcases CallSite.mem_inputs.1 hinput with ⟨arg, harg, rfl⟩ | hnode | hnode
    · exact (hprepared.has arg harg).imp_left hb2.hasNode
    · exact (hprepared.called input hnode).imp_left hb2.hasNode
    · exact ⟨(hblockArg input hnode).1.has, hs.not_locked (hnewBlockArg input hnode)⟩
  have henters : site.Enters s2 A observed := by
    refine ⟨rfl, rfl, rfl, ⟨rfl, rfl⟩, rfl, fun input hinput => (hinputs input hinput).1,
      fun input hinput => (hinputs input hinput).2, fun input hinput => ?_, ?_, ?_,
      hscope.trans_le hb2.scopes_le, fun hne => ?_, ?_⟩
    · rcases CallSite.mem_inputs.1 hinput with ⟨arg, harg, rfl⟩ | hnode | hnode
      · have hmem : arg.node ∈ args.map (·.node) := List.mem_map_of_mem harg
        simp [observed, hmem]
      · have hmem : receiver = some input := hnode
        simp [observed, hmem]
      · have hmem : blockArg = some input := hnode
        simp [observed, hmem]
    · exact fun arg harg hout => hb2.isSlot (hprepared.slot arg harg hout)
    · exact fun i arg harg hout =>
        hprepared.apart_at hnewBlockArg ⟨rfl, rfl, rfl⟩ harg hout
    · obtain ⟨node, hnode⟩ := Option.ne_none_iff_exists'.1 hne
      exact (hblockArg node hnode).2
    · exact fun opened hopened => (hblock opened hopened).imp_left fun h => h.mono h2.before
  exact (newCall_leads he hs2 henters rfl).post fun node s3 _ hgiven => hgiven.1.1.of_before hb2

theorem visitCall_leads (span : Span) :
    Leads ∅ (visitCall engine scope call span) s A A fun node s' => s.Gives s' node := by
  refine (Leads.mapM_option _ fun expr hexpr => he.visit scope expr hs hscope
    (h.imp_right fun hpassive => Or.inl (hpassive.receiver expr hexpr))).next hs
      fun receiver s1 h1 hs1 hreceiver => ?_
  have hscope1 := hscope.trans_le h1.before.scopes_le
  have h' := h.imp_left h1.before.isPlain
  have hafter args s2 (h2 : Episode ∅ (s1, A) (s2, A)) (hargs : PassesAll s1 s2 A args) :=
    (enterCall_leads he (h2.tended hs1) (hscope1.trans_le h2.before.scopes_le)
      (h'.imp_left h2.before.isPlain) (hargs.prepared hs h2.before hreceiver) span).post
        fun node s3 _ hgives => hgives.of_before (h1.before.trans h2.before)
  split
  next => exact (superArgs_leads he hs1 scope span).bind hafter
  next =>
    refine (passAll_leads call.args hs1 fun arg harg _ s2 hs2 hb2 => ?_).bind hafter
    exact visitArg_leads he hs2 (hscope1.trans_le hb2.scopes_le) arg
      (h'.imp hb2.isPlain fun hpassive => hpassive.args arg harg)

end

/-! ## Declarations -/

theorem visitMethod_leads (hs : s.Tended A) (scope : ScopeId) (decl : MethodDecl) :
    Leads O (visitMethod scope decl) s A A fun _ _ => True := by
  have howner : Leads O (methodOwner scope decl.onSelf) s A A fun _ _ => True := by
    refine Leads.get_bind ?_
    split
    next => exact (build_leads hs (metaclass_builds hs.types _)).post fun _ _ _ _ => trivial
    next => exact .pure trivial
  refine howner.bind fun owner s1 h1 _ => ?_
  exact (build_leads (h1.tended hs) (register_builds owner decl .user)).bind
    fun _ _ _ _ => .pure trivial

section

variable (he : engine.Guides) (hs : s.Tended A)
include he hs

/-- The body of a class is walked through in a scope of its own. -/
theorem classBody_leads {A' : Agenda} {rest : Infer Unit} (cls : TypeId) (body : List Expr)
    (hrest : ∀ s1, Episode ∅ (s, A) (s1, A) → Leads ∅ rest s1 A A' fun _ _ => True) : Leads ∅ (do
      let metaType ← build (metaclass cls)
      let inner ← pushScope (.top metaType cls)
      body.forM fun expr => do let _ ← engine.visit inner expr
      rest) s A A' fun _ _ => True := by
  refine (build_leads hs (metaclass_builds hs.types cls)).next hs fun metaType s1 h1 hs1 _ => ?_
  refine .bind (pushScope_leads hs1 rfl (.top s1 _ _)) fun inner s2 h2 ⟨hplain, _⟩ => ?_
  refine (Leads.forM body fun expr _ s3 h3 => ?_).bind fun _ s3 h3 _ =>
    hrest s3 ((h1.trans h2).trans h3)
  have hplain3 := h3.before.isPlain hplain
  exact (he.visit _ expr (h3.tended (h2.tended hs1)) hplain3.has (Or.inl hplain3)).bind
    fun _ _ _ _ => .pure trivial

/-- A class that is opened again opens no gap, and the gaps of a new class are closed in the
end. -/
theorem enterClass_leads {parent : Option TypeId} (decl : ClassDecl)
    (hparent : s.types.declaredClass? decl.name = none →
      ∀ above, parent = some above → s.types.Known above) :
    Leads ∅ (enterClass engine decl parent) s A A fun _ _ => True := by
  rcases declareClass_cases hs.types decl.name parent decl.isAbstract decl.typeVars
    hparent with ⟨cls, hold⟩ | ⟨cls, t, hnew, hdeclares⟩
  · have hrun : build (declareClass decl.name parent decl.isAbstract decl.typeVars) s
        = .ok (cls, false) s := by simp [build, hold]
    refine .step hrun (.refl _) ?_
    exact classBody_leads he hs cls decl.body fun _ _ => .pure trivial
  · have hrun : build (declareClass decl.name parent decl.isAbstract decl.typeVars) s
        = .ok (cls, true) { s with types := t } := by simp [build, hnew]
    refine .move hs (.declare hdeclares) hrun fun hs1 _ => ?_
    refine classBody_leads he hs1 cls decl.body fun s2 h2 => ?_
    refine noticeSubclass_leads he (h2.tended hs1) fun call base hwatched hbelow => ?_
    refine ⟨h2.before.types.standsBelow hbelow, ?_⟩
    rintro rfl
    exact hdeclares.not_known (hs.watched hwatched).2

theorem visitClass_leads (scope : ScopeId) (decl : ClassDecl) (span : Span) :
    Leads ∅ (visitClass engine scope decl span) s A A fun _ _ => True := by
  refine (Leads.mapM_option _ fun type _ => denoteIn_leads hs scope span type).next hs
    fun parent s1 h1 hs1 _ => .get_bind ?_
  split
  next =>
    refine (known_forM_leads _).bind fun _ s2 h2 ⟨hsame, hknown⟩ => ?_
    subst hsame
    exact enterClass_leads he hs1 decl fun _ above habove => hknown above (by simp [habove])
  next hdeclared =>
    have hopened : s1.types.declaredClass? decl.name ≠ none := by simpa using hdeclared
    refine .of_run rfl (.refl _) (enterClass_leads he hs1 decl fun hnone => ?_)
    exact absurd hnone hopened

end

theorem denoteFields_leads (hs : s.Tended A) (library : TypeId) (span : Span)
    (fields : List (String × TypeExpr)) :
    Leads O (denoteFields library span fields) s A A fun _ _ => True := by
  refine (Leads.mapM_all (P := fun _ _ => True) (fun _ _ _ _ _ => trivial) fields
    fun ⟨name, type⟩ _ s1 h1 => ?_).post fun _ _ _ _ => trivial
  have hs1 := h1.tended hs
  exact (denoting_leads hs1 (denote_denotes hs1.types library .empty span type)).bind
    fun _ _ _ _ => .pure trivial

theorem visitLibrary_leads (hs : s.Tended A) (decl : LibraryDecl) (span : Span) :
    Leads O (visitLibrary decl span) s A A fun _ _ => True := by
  refine (build_leads hs (declareLibrary_builds decl.name)).next hs fun library s1 h1 hs1 _ => ?_
  refine (Leads.forM decl.structs fun struct _ s2 h2 => ?_).bind fun _ s2 h2 _ => ?_
  · have hs2 := h2.tended hs1
    refine (denoteFields_leads hs2 library span struct.fields).next hs2 fun fields s3 h3 hs3 _ => ?_
    exact (build_leads hs3 (declareStruct_builds hs3.types library struct.name
      fields)).bind fun _ _ _ _ => .pure trivial
  · have hs2 := h2.tended hs1
    refine .forM decl.functions fun function _ s3 h3 => ?_
    have hs3 := h3.tended hs2
    refine (denoteFields_leads hs3 library span function.params).next hs3
      fun params s4 h4 hs4 _ => ?_
    refine (denoting_leads hs4 (denoteResult_denotes hs4.types library .empty span
      function.result)).bind fun result s5 h5 _ => ?_
    exact (build_leads (h5.tended hs4) (declareExternal_builds library function.name
      params result function.variadic)).bind fun _ _ _ _ => .pure trivial

/-! ## Expressions -/

theorem typedVar_leads (hs : s.Tended A) (scope : ScopeId) (span : Span) (name : String)
    (type : TypeId) : Leads O (typedVar scope span name type) s A A fun _ _ => True := by
  refine (typedNode_leads hs type span).bind fun node s1 h1 ⟨hnode, heq⟩ => ?_
  subst hnode heq
  have hslot := isSlot_withNode hs.toSound ⟨some type, [], [], .pinned type, false, span⟩
  have hfree : .node ⟨s.flow.size⟩ ∉ A.locks := hs.not_locked (Nat.lt_irrefl _)
  exact .move (h1.tended hs) (.bind scope name hslot hfree) rfl fun _ _ => .pure trivial

theorem functionParam_leads {inner : ScopeId} (hs : s.Tended A) (outer : ScopeId) (span : Span)
    (param : Param) : Leads O (functionParam outer inner span param) s A A fun _ _ => True := by
  unfold functionParam
  split
  next restriction _ =>
    exact (denoteIn_leads hs outer span restriction).bind fun type s1 h1 _ =>
      typedVar_leads (h1.tended hs) inner span param.name type
  next => exact .step rfl (.refl _) (typedVar_leads hs inner span param.name .nil)

theorem visitFunction_leads (he : engine.Guides) (hs : s.Tended A) (hplain : s.IsPlain scope)
    (params : List Param) (body : Expr) (span : Span) :
    Leads ∅ (visitFunction engine scope params body span) s A A
      fun node s' => s.Gives s' node := by
  refine (childScope_leads hs hplain).next hs fun inner s1 h1 hs1 hinner => ?_
  refine (Leads.mapM_all (P := fun _ _ => True) (fun _ _ _ _ _ => trivial) params
    fun param _ s2 h2 => functionParam_leads (h2.tended hs1) scope span param).next hs1
      fun types s2 h2 hs2 _ => ?_
  have hplain2 := h2.before.isPlain hinner
  refine (he.visit _ body hs2 hplain2.has (Or.inl hplain2)).bind fun result s3 h3 hresult => ?_
  refine (derived_leads he (h3.tended hs2) (by simpa using hresult.has) _ span).post
    fun node s4 _ hgives => ?_
  exact hgives.of_before (h1.before.trans (h2.before.trans h3.before))

theorem visitVar_leads (he : engine.Guides) (hs : s.Tended A) (hscope : scope.index < s.scopes.size)
    (name : String) (span : Span) :
    Leads ∅ (visitVar engine scope name span) s A A fun node s' => s.Gives s' node := by
  refine Leads.get_bind ?_
  split
  next var hfound =>
    exact derived_leads he hs (by simpa using hs.hasNode_of_findVarWithin hfound) .union span
  next =>
    refine visitCall_leads he hs hscope (Or.inr ⟨?_, ?_, rfl, rfl⟩) span
    · exact fun expr hexpr => absurd hexpr (by simp [Call.plain])
    · exact fun arg harg => absurd harg List.not_mem_nil

theorem isPassiveCall_blockArg (names : List String) (span : Span) :
    IsPassiveCall
      (.plain (some ⟨.var "#fn", span⟩) "call" (names.map fun name => ⟨.var name, span⟩)) := by
  refine ⟨?_, ?_, rfl, rfl⟩
  · intro expr hexpr
    exact ⟨"#fn", by rw [← Option.some.inj hexpr]⟩
  · intro arg harg
    obtain ⟨name, -, rfl⟩ := List.mem_map.1 harg
    exact ⟨name, rfl⟩

theorem visitPlain_leads (he : engine.Guides) (hs : s.Tended A) (hplain : s.IsPlain scope) :
    Leads ∅ (visitWith engine scope expr) s A A fun node s' => s.Gives s' node := by
  obtain ⟨form, span⟩ := expr
  have htyped : ∀ s1 type, Episode ∅ (s, A) (s1, A) →
      Leads ∅ (typedNode type span) s1 A A fun node s' => s.Gives s' node :=
    fun s1 type h1 => (typedNode_gives_leads (h1.tended hs) type span).post
      fun _ _ _ hgives => hgives.of_before h1.before
  have hderived :
      ∀ s1 rule inputs, Episode ∅ (s, A) (s1, A) → (∀ input ∈ inputs, s1.HasNode input) →
      Leads ∅ (derived engine rule span inputs) s1 A A fun node s' => s.Gives s' node :=
    fun s1 rule inputs h1 hinputs => (derived_leads he (h1.tended hs) hinputs rule span).post
      fun _ _ _ hgives => hgives.of_before h1.before
  have hdenoted : ∀ type, Leads ∅ (do typedNode (← denoteIn scope span type) span) s A A
      fun node s' => s.Gives s' node := fun type =>
    (denoteIn_leads hs scope span type).bind fun type s1 h1 _ => htyped s1 type h1
  have hvisit : ∀ s1 expr, Episode ∅ (s, A) (s1, A) →
      Leads ∅ (engine.visit scope expr) s1 A A fun node s' => s1.Gives s' node :=
    fun s1 expr h1 =>
      have hplain1 := h1.before.isPlain hplain
      he.visit scope expr (h1.tended hs) hplain1.has (Or.inl hplain1)
  cases form with
  | nil => exact htyped s .nil (.refl _)
  | bool value => exact htyped s .bool (.refl _)
  | int value => exact htyped s .int32 (.refl _)
  | char value => exact htyped s .char (.refl _)
  | str value => exact htyped s .string (.refl _)
  | symbol value => exact htyped s .symbol (.refl _)
  | array items =>
    refine (visitAll_leads he hs hplain items).bind fun nodes s1 h1 hnodes => ?_
    exact hderived s1 .array nodes h1 hnodes.1
  | var name => exact visitVar_leads he hs hplain.has name span
  | selfRef => exact .get_bind (htyped s _ (.refl _))
  | assign target value =>
    refine (hvisit s value (.refl _)).next hs fun node s1 h1 hs1 hgives => ?_
    -- The value is the result, so that nothing may take it into use meanwhile.
    have hbound : Leads ∅ (do
        let var ← declareVar scope target span
        connect engine var [node]) s1 A A fun _ s' => Lock.Holds s' (.node node) ∧ True := by
      refine Leads.holding _ hs1 hgives.loose (by simp) fun hs1 => ?_
      refine (declareVar_leads hs1 (h1.before.isPlain hplain) target span).bind
        fun var s2 h2 ⟨hslot, _⟩ => ?_
      exact connect_leads he (h2.tended hs1) hslot (by simpa using h2.before.hasNode hgives.has)
    have hvalue : Leads ∅ ((do
        let var ← declareVar scope target span
        connect engine var [node]) >>= fun _ => pure node) s1 A A fun node s' =>
          s.Gives s' node :=
      hbound.bind fun _ s2 _ hlocked => .pure ⟨hgives.new, hlocked.1⟩
    simpa only [bind_assoc] using hvalue
  | out name => exact .fail _ _
  | path type =>
    refine (denoteIn_leads hs scope span type).next hs fun type s1 h1 hs1 _ => ?_
    refine (build_leads hs1 (metaclass_builds hs1.types type)).bind
      fun metaType s2 h2 _ => htyped s2 metaType (h1.trans h2)
  | call call => exact visitCall_leads he hs hplain.has (Or.inl hplain) span
  | yield args => exact visitYield_leads he hs hplain args span
  | seq items =>
    refine (visitAll_leads he hs hplain items).bind fun nodes s1 h1 ⟨_, _, hgives⟩ => ?_
    cases hlast : nodes.getLast? with
    | some last => exact .pure (hgives last hlast)
    | none => exact htyped s1 .nil h1
  | branch test yes no =>
    refine (hvisit s test (.refl _)).bind fun _ s1 h1 _ => ?_
    refine (hvisit s1 yes h1).bind fun yesNode s2 h2 hyes => ?_
    refine (hvisit s2 no (h1.trans h2)).bind fun noNode s3 h3 hno => ?_
    refine hderived s3 .union [yesNode, noNode] (h1.trans (h2.trans h3)) ?_
    simpa using ⟨h3.before.hasNode hyes.has, hno.has⟩
  | method decl =>
    exact (visitMethod_leads hs scope decl).bind fun _ s1 h1 _ => htyped s1 .nil h1
  | classDecl decl =>
    exact (visitClass_leads he hs scope decl span).bind fun _ s1 h1 _ => htyped s1 .nil h1
  | library decl =>
    exact (visitLibrary_leads hs decl span).bind fun _ s1 h1 _ => htyped s1 .nil h1
  | primitive type => exact hdenoted type
  | allocate type =>
    cases type with
    | none => exact .get_bind (htyped s _ (.refl _))
    | some type => exact hdenoted type
  | function params body => exact visitFunction_leads he hs hplain params body span
  | classOf value =>
    refine (hvisit s value (.refl _)).bind fun node s1 h1 hgives => ?_
    exact hderived s1 .metaclass [node] h1 (by simpa using hgives.has)

theorem visitWith_leads (he : engine.Guides) (hs : s.Tended A)
    (hscope : scope.index < s.scopes.size) (h : s.IsPlain scope ∨ expr.IsPassive) :
    Leads ∅ (visitWith engine scope expr) s A A fun node s' => s.Gives s' node := by
  rcases h with hplain | ⟨name, hread⟩ | ⟨names, span, rfl⟩
  · exact visitPlain_leads he hs hplain
  · obtain ⟨form, span⟩ := expr
    subst hread
    exact visitVar_leads he hs hscope name span
  · exact visitCall_leads he hs hscope (Or.inr (isPassiveCall_blockArg names span)) span

end Infer

/-! ## Runs -/

/-- However much fuel an engine has, it guides a run. -/
theorem Engine.ofFuel_guides (fuel : Nat) : (Engine.ofFuel fuel).Guides := by
  induction fuel with
  | zero => exact ⟨fun _ _ _ _ _ => .throw _, fun _ _ _ => .throw _⟩
  | succ fuel ih =>
    exact ⟨fun _ _ hs hscope h => Infer.visitWith_leads ih hs hscope h,
      fun _ hs hcall => Infer.recalculateWith_leads ih hs hcall⟩

namespace Session

/-- The sessions that checks of programs lead to, one after another, whether they fail or not. -/
inductive Reached (options : InferenceOptions) : Session → Prop
  | start : Reached options (.start options)
  | check {s : Session} (program : Program) (h : Reached options s) :
      Reached options (s.check program).2

/-- The sessions that successful checks of programs lead to, one after another. -/
inductive Checked (options : InferenceOptions) : Session → Prop
  | start : Checked options (.start options)
  | check {s : Session} {program : Program} (h : Checked options s)
      (hok : (s.check program).1.isOk = true) : Checked options (s.check program).2

section

variable (options : InferenceOptions)

theorem start_sound : (start options).Sound := by
  have hnode : ∀ node, ((start options).flow.get node).inputs = [] ∧
      ((start options).flow.get node).observers = [] := by
    rintro ⟨_ | n⟩ <;> exact ⟨rfl, rfl⟩
  have hscope : ∀ scope, (start options).scope scope = .top .program .program := by
    rintro ⟨_ | n⟩
    · rfl
    · have hnone : #[Scope.top .program .program][n + 1]? = none :=
        Array.getElem?_eq_none (Nat.le_add_left 1 n)
      rfl
  have hcache : ∀ key id, (start options).cache.find? key ≠ some id := by
    simp [start, InstanceCache.empty, InstanceCache.find?]
  constructor
  case toFills =>
    constructor
    case calls => exact fun call hcall => absurd hcall (Nat.not_lt_zero _)
    case instances => exact fun id hid => absurd hid (Nat.not_lt_zero _)
    case scopes =>
      intro scope
      rw [hscope]
      exact .top _ _ _
    case outputs => exact fun entry hentry => absurd hentry List.not_mem_nil
    case watch =>
      exact ⟨.empty, fun _ hentry => absurd hentry List.not_mem_nil,
        fun _ hentry => absurd hentry List.not_mem_nil⟩
    case cache => exact fun key id hfind => absurd hfind (hcache key id)
  case types =>
    simp only [start]
    exact standard_founded
  case nil => exact Nat.zero_lt_one
  case mirrored =>
    constructor
    case linked => simp [FlowGraph.Linked, (hnode _).1]
    case observed => simp [(hnode _).2]
    case inputs_nodup => simp [(hnode _).1]
    case observers_nodup => simp [(hnode _).2]
  case pins =>
    rintro ⟨_ | n⟩ type hrule
    · exact Or.inr (congrArg some (Rule.pinned.inj hrule))
    · exact Or.inl rfl
  case observers =>
    intro node call hcall
    rw [(hnode node).2] at hcall
    cases hcall
  case node_inj => exact fun call _ hcall => absurd hcall (Nat.not_lt_zero _)
  case results => exact fun call hcall => absurd hcall (Nat.not_lt_zero _)
  case attends => exact fun call hcall => absurd hcall (Nat.not_lt_zero _)
  case apart => exact fun call hcall => absurd hcall (Nat.not_lt_zero _)
  case bodies =>
    intro call other node hbody
    rw [body?, call_of_not_hasCall _ (Nat.not_lt_zero _)] at hbody
    simp [default, CallSite.fresh] at hbody
  case keys => exact fun key other id hfind => absurd hfind (hcache key id)

theorem start_tended : (start options).Tended .empty where
  toSound := start_sound options
  current := fun _ hcall => absurd hcall (Nat.not_lt_zero _)
  locks := fun _ hlock => hlock.elim

theorem start_isPlain : (start options).IsPlain .root :=
  ⟨Nat.zero_lt_one, fun _ hentry => absurd hentry List.not_mem_nil⟩

end

theorem checkWith_leads (fuel : Nat) (hs : s.Tended A) (hroot : s.IsPlain .root)
    (program : Program) : Leads ∅ (Infer.checkWith (.ofFuel fuel) program) s A A fun _ _ => True :=
  (Infer.visitAll_leads (Engine.ofFuel_guides fuel) hs hroot program.exprs).post
    fun _ _ _ _ => trivial

/-- A check moves the session; without a failure it leaves the agenda as it was. -/
theorem check_evolves (hs : s.Tended A) (hroot : s.IsPlain .root) (program : Program) :
    (∃ A', Evolves (s, A) ((s.check program).2, A')) ∧
      ((s.check program).1.isOk = true → Evolves (s, A) ((s.check program).2, A)) := by
  have hleads := checkWith_leads (A := A) Engine.fuelSupply hs hroot program
  unfold check
  split
  next nodes s' hrun =>
    have hepisode := ((Leads.ok_iff hrun).1 hleads).1
    exact ⟨⟨A, hepisode.evolves⟩, fun _ => hepisode.evolves⟩
  next halt s' hrun =>
    exact ⟨⟨.all, (Leads.error_iff hrun).1 hleads⟩,
      fun hok => absurd hok (by simp [Except.isOk, Except.toBool])⟩

theorem Reached.evolves (h : Reached options s) : ∃ A, Evolves (.start options, .empty) (s, A) := by
  induction h with
  | start => exact ⟨.empty, .refl⟩
  | check program _ ih =>
    obtain ⟨A, hevolves⟩ := ih
    have hroot := hevolves.before.isPlain (start_isPlain options)
    obtain ⟨A', hlast⟩ :=
      (check_evolves (hevolves.tended (start_tended options)) hroot program).1
    exact ⟨A', hevolves.trans hlast⟩

/-- Successful checks leave nothing on the agenda. -/
theorem Checked.evolves (h : Checked options s) : Evolves (.start options, .empty) (s, .empty) := by
  induction h with
  | start => exact .refl
  | check _ hok ih =>
    have hroot := ih.before.isPlain (start_isPlain options)
    exact ih.trans ((check_evolves (ih.tended (start_tended options)) hroot _).2 hok)

theorem Checked.tended (h : Checked options s) : s.Tended .empty :=
  h.evolves.tended (start_tended options)

/-- What holds in the beginning and is kept by every move holds after successful checks. -/
theorem Checked.keeps {P : Session → Agenda → Prop} (h : Checked options s)
    (hmove : ∀ {O s A s' A'}, Move O (s, A) (s', A') → s.Tended A → P s A → P s' A')
    (hstart : P (.start options) .empty) : P s .empty := by
  have hkept : s.Tended .empty ∧ P s .empty :=
    h.evolves.keeps (P := fun s A => s.Tended A ∧ P s A)
      (fun hlast hs => ⟨hlast.tended hs.1, hmove hlast hs.1 hs.2⟩) ⟨start_tended options, hstart⟩
  exact hkept.2

end Session

end Callsite
