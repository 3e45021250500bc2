import Callsite.Proofs.Run.Leads

/-!
# Single steps of inference

What the steps lead to that read or change one part of a session, and what an
engine has to guarantee for the steps that call it back.
-/

namespace Callsite

variable {call : CallId}

variable {s s' : Session} {A A' : Agenda} {O : Set CallId} {α : Type}

abbrev Session.withNode (s : Session) (node : FlowNode) : Session :=
  s.withFlow ⟨s.flow.nodes.push node⟩

/-! ## Engines -/

/-- A node has been made since an earlier session, and has no use yet. -/
structure Session.Gives (s s' : Session) (node : NodeId) : Prop where
  new : ¬ s.HasNode node
  loose : s'.IsLoose node

/-- An engine looks at expressions and resolves calls by moves.  An expression gets a node of its
own, and resolving a call takes it off the agenda. -/
structure Engine.Guides (engine : Engine) : Prop where
  visit :
    ∀ {s A} (scope : ScopeId) (expr : Expr), s.Tended A → scope.index < s.scopes.size →
      s.IsPlain scope ∨ expr.IsPassive →
      Leads ∅ (engine.visit scope expr) s A A fun node s' => s.Gives s' node
  recalculate :
    ∀ {s A} (call : CallId), s.Tended A → s.HasCall call →
      Leads ∅ (engine.recalculate call) s A (A.dropCall call) fun _ _ => True

namespace Session

variable {node : NodeId}

theorem Gives.has (h : s.Gives s' node) : s'.HasNode node :=
  h.loose.has

theorem Gives.of_before {s0 : Session} (hb : s0.Before s) (h : s.Gives s' node) :
    s0.Gives s' node :=
  ⟨fun hold => h.new (hb.hasNode hold), h.loose⟩

/-- A node that is not there yet is not locked. -/
theorem Tended.not_locked (hs : s.Tended A) (hnew : ¬ s.HasNode node) : .node node ∉ A.locks :=
  fun hlock => hnew (hs.locks _ hlock).has

theorem Tended.not_locked_source (hs : s.Tended A) (hnew : ¬ s.HasNode node) (call : CallId)
    (index : Nat) : .source call index node ∉ A.locks :=
  fun hlock => hnew (hs.locks _ hlock).2.1

/-- A node in use is not locked. -/
theorem Tended.not_locked_of_uses (hs : s.Tended A) (huses : (s.call call).Uses node) :
    .node node ∉ A.locks :=
  fun hlock => (hs.locks _ hlock).unused call huses

theorem Tended.not_locked_of_bound {scope : ScopeId} {entry : String × NodeId} (hs : s.Tended A)
    (hentry : entry ∈ (s.scope scope).vars.entries) : .node entry.2 ∉ A.locks :=
  fun hlock => (hs.locks _ hlock).unbound scope entry hentry rfl

/-- Only nodes that are there are in use. -/
theorem Sound.hasNode_of_uses (hs : s.Sound) (huses : (s.call call).Uses node) :
    s.HasNode node := by
  have hcall : s.HasCall call := by
    by_contra hnot
    rw [s.call_of_not_hasCall hnot] at huses
    rcases huses with hinput | ⟨conversion, hconversion, -⟩ | hbody
    · cases hinput
    · cases hconversion
    · simp [default, CallSite.fresh] at hbody
  have hsits := hs.calls call hcall
  rcases huses with hinput | ⟨conversion, hconversion, rfl⟩ | hbody
  · exact hsits.inputs node hinput
  · exact hsits.sources conversion hconversion
  · obtain ⟨block, hblock, hvisit⟩ := body?_eq_some.1 hbody
    exact (hsits.block block hblock).visited node hvisit

/-- A new node has no use in a session that has the calls and scopes of the one before. -/
theorem Sound.gives (hs : s.Sound) (hnew : ¬ s.HasNode node) (hnode : s'.HasNode node)
    (hcalls : ∀ call, (s'.call call).Uses node → (s.call call).Uses node)
    (hscopes : s'.scopes = s.scopes) : s.Gives s' node where
  new := hnew
  loose :=
    { has := hnode
      unused := fun call huses => hnew (hs.hasNode_of_uses (hcalls call huses))
      unbound := by
        rintro scope entry hentry rfl
        rw [Session.scope, hscopes] at hentry
        exact hnew ((hs.scopes scope).vars entry hentry) }

end Session

namespace Infer

/-! ## Types -/

theorem build_leads {x : Build α} {Q : α → TypeTable → Prop} (hs : s.Tended A)
    (hx : Builds x s.types Q) :
    Leads O (build x) s A A fun a s' => ∃ t, s' = { s with types := t } ∧
      s.types.Extends t ∧ Q a t :=
  .ok rfl (.of_move hs (.types _ hx.1)) ⟨_, rfl, hx.1, hx.2⟩

theorem denoting_leads {x : Denote α} {Q : α → TypeTable → Prop} (hs : s.Tended A)
    (hx : Denotes x s.types Q) :
    Leads O (denoting x) s A A fun a s' => ∃ t, s' = { s with types := t } ∧
      s.types.Extends t ∧ Q a t := by
  unfold Denotes at hx
  cases hrun : x s.types with
  | ok a t =>
    rw [hrun] at hx
    have hend : denoting x s = .ok a { s with types := t } := by simp [denoting, hrun]
    exact .ok hend (.of_move hs (.types t hx.1)) ⟨t, rfl, hx.1, hx.2⟩
  | error failure t =>
    rw [hrun] at hx
    have hend : denoting x s = .error (.failed failure) { s with types := t } := by
      simp [denoting, hrun]
    refine (Leads.error_iff hend).2 (.tail (.single ⟨O, .types t hx⟩) ⟨O, .wait (A.le_all)⟩)

theorem known_leads (type : TypeId) :
    Leads O (known type) s A A fun _ s' => s = s' ∧ s.types.Known type := by
  refine Leads.get_bind ?_
  split
  next h => exact .pure ⟨rfl, h⟩
  next => exact .throw _

theorem known_forM_leads (types : List TypeId) :
    Leads O (types.forM known) s A A fun _ s' => s = s' ∧ ∀ type ∈ types, s.types.Known type := by
  induction types with
  | nil => exact .pure ⟨rfl, by simp⟩
  | cons first rest ih =>
    refine (known_leads first).bind fun _ s1 _ ⟨hsame, hknown⟩ => ?_
    subst hsame
    exact ih.post fun _ s2 _ ⟨hsame, hrest⟩ => ⟨hsame, List.forall_mem_cons.2 ⟨hknown, hrest⟩⟩

/-! ## Nodes -/

theorem node_ne_new (hs : s.Sound) (hcall : s.HasCall call) :
    (s.call call).node ≠ ⟨s.flow.size⟩ := by
  intro hnode
  have hlt := (hs.calls call hcall).node
  rw [hnode] at hlt
  exact Nat.lt_irrefl _ hlt

theorem isSlot_withNode (hs : s.Sound) (node : FlowNode) :
    (s.withNode node).IsSlot ⟨s.flow.size⟩ := by
  refine ⟨?_, fun call hcall hnode => absurd hnode (node_ne_new hs hcall)⟩
  change s.flow.size < (⟨s.flow.nodes.push node⟩ : FlowGraph).size
  rw [FlowGraph.size_push]
  exact Nat.lt_succ_self _

theorem gives_withNode (hs : s.Sound) (node : FlowNode) : s.Gives (s.withNode node) ⟨s.flow.size⟩ :=
  hs.gives (Nat.lt_irrefl _) (isSlot_withNode hs node).has (fun _ => id) rfl

variable (hs : s.Tended A)
include hs

theorem ruledNode_leads (rule : Rule) (span : Span) :
    Leads O (ruledNode rule span) s A A fun node s' =>
      node = ⟨s.flow.size⟩ ∧ s' = s.withNode ⟨none, [], [], rule, false, span⟩ :=
  .ok rfl (.of_move hs (.node _ ⟨rfl, rfl⟩ fun _ _ => Or.inl rfl)) ⟨rfl, rfl⟩

theorem typedNode_leads (type : TypeId) (span : Span) :
    Leads O (typedNode type span) s A A fun node s' =>
      node = ⟨s.flow.size⟩ ∧ s' = s.withNode ⟨some type, [], [], .pinned type, false, span⟩ :=
  .ok rfl (.of_move hs
    (.node _ ⟨rfl, rfl⟩ fun _ hrule => Or.inr (congrArg some (Rule.pinned.inj hrule))))
    ⟨rfl, rfl⟩

/-- A node of a fixed type is new. -/
theorem typedNode_gives_leads (type : TypeId) (span : Span) :
    Leads O (typedNode type span) s A A fun node s' => s.Gives s' node := by
  refine (typedNode_leads hs type span).post fun node s1 _ ⟨hnode, hs1⟩ => ?_
  subst hnode hs1
  exact gives_withNode hs.toSound _

theorem newNode_leads (span : Span) :
    Leads O (newNode span) s A A fun node s' => s'.IsSlot node ∧ s.Gives s' node := by
  refine (ruledNode_leads hs .union span).post fun node s1 _ ⟨hnode, hs1⟩ => ?_
  subst hnode hs1
  exact ⟨isSlot_withNode hs.toSound _, gives_withNode hs.toSound _⟩

theorem typedNode_slot_leads (type : TypeId) (span : Span) :
    Leads O (typedNode type span) s A A fun node s' => s'.IsSlot node := by
  refine (typedNode_leads hs type span).post fun node s1 _ ⟨hnode, hs1⟩ => ?_
  subst hnode hs1
  exact isSlot_withNode hs.toSound _

end Infer

end Callsite
