import Callsite.Proofs.Engine.Primitives
import Mathlib.Order.BooleanAlgebra.Set

/-!
# Propagation by moves

Deriving the type of a node takes it off the agenda and puts its observers there;
a propagation works the agenda off again.
-/

namespace Callsite

open TypeTable

variable {t : TypeTable} {type : TypeId} {inputs : List NodeId} {node : NodeId} {call : CallId}

/-! ## Agendas -/

namespace Agenda

variable (A : Agenda) (node : NodeId) (call : CallId) (observers rest : List Observer)

theorem withObservers_nil_le : A.withObservers [] ≤ A :=
  { le_refl A with nodes := by simp [withObservers], calls := by simp [withObservers] }

theorem dropCall_withCall_le : (A.withCall call).dropCall call ≤ A :=
  { le_refl A with calls := Set.sdiff_singleton_subset_iff.2 subset_rfl }

theorem le_withConverting : A ≤ A.withConverting call :=
  { le_refl A with converting := Set.subset_insert _ _ }

theorem dropConverting_withConverting_le : (A.withConverting call).dropConverting call ≤ A :=
  { le_refl A with converting := Set.sdiff_singleton_subset_iff.2 subset_rfl }

theorem dropReopened_withReopened_le : (A.withReopened call).dropReopened call ≤ A :=
  { le_refl A with reopened := Set.sdiff_singleton_subset_iff.2 subset_rfl }

theorem dropNode_withNode_le : (A.withNode node).dropNode node ≤ A :=
  { le_refl A with nodes := Set.sdiff_singleton_subset_iff.2 subset_rfl }

theorem le_withNode : A ≤ A.withNode node :=
  { le_refl A with nodes := Set.subset_insert _ _ }

theorem withNode_withNode_le : (A.withNode node).withNode node ≤ A.withNode node :=
  { le_refl (A.withNode node) with nodes := (Set.insert_eq_of_mem (Set.mem_insert _ _)).subset }

theorem dropCall_withObservers_le :
    (A.withObservers (.call call :: rest)).dropCall call ≤ A.withObservers rest := by
  refine ⟨?_, ?_, subset_rfl, subset_rfl, subset_rfl, subset_rfl⟩
  · simp [withObservers, dropCall]
  · intro other
    simp only [withObservers, dropCall, List.mem_cons, Observer.call.injEq, Set.mem_sdiff,
      Set.mem_union, Set.mem_ofPred_eq, Set.mem_singleton_iff]
    tauto

theorem dropNode_withObservers_le :
    (A.withObservers (.node node :: rest)).dropNode node ≤ A.withObservers rest := by
  refine ⟨?_, ?_, subset_rfl, subset_rfl, subset_rfl, subset_rfl⟩
  · intro other
    simp only [withObservers, dropNode, List.mem_cons, Observer.node.injEq, Set.mem_sdiff,
      Set.mem_union, Set.mem_ofPred_eq, Set.mem_singleton_iff]
    tauto
  · simp [withObservers, dropNode]

theorem withObservers_append :
    (A.withObservers rest).withObservers observers = A.withObservers (observers ++ rest) := by
  simp only [withObservers, List.mem_append, Set.ofPred_or, Set.union_comm, Set.union_left_comm]

theorem withObservers_mono {A A' : Agenda} (h : A ≤ A') (observers : List Observer) :
    A.withObservers observers ≤ A'.withObservers observers :=
  ⟨Set.union_subset_union_left _ h.nodes, Set.union_subset_union_left _ h.calls, h.converting,
    h.gaps, h.reopened, h.locks⟩

end Agenda

/-! ## Deriving types -/

theorem Rule.derive_builds {types : List TypeId} {rule : Rule} (hf : t.Founded)
    (hk : (∀ type, rule ≠ .pinned type) → ∀ type ∈ types, t.Known type) :
    Builds (rule.derive types) t fun type t' =>
      (rule = .union → unionOf types t' = (type, t')) ∧
        ∀ pinned, rule = .pinned pinned → type = pinned := by
  cases rule with
  | union =>
    have hknown := hk (by simp)
    exact ⟨(unionOf_builds hf hknown).1, fun _ => unionOf_again hf hknown (.refl _), by simp⟩
  | pinned type => exact .pure ⟨by simp, fun _ hpinned => Rule.pinned.inj hpinned⟩
  | metaclass =>
    refine (unionOf_builds hf (hk (by simp))).bind fun type t1 h1 _ => ?_
    exact (metaclass_builds (h1.founded hf) type).mono fun _ _ _ _ => by simp
  | array =>
    refine (unionOf_builds hf (hk (by simp))).bind fun type t1 h1 _ => ?_
    exact (arrayOf_builds (h1.founded hf) type).mono fun _ _ _ _ => by simp
  | function params =>
    refine (unionOf_builds hf (hk (by simp))).bind fun type t1 h1 _ => ?_
    exact (functionOf_builds params type).mono fun _ _ _ _ => by simp

theorem FlowGraph.derive_builds {g : FlowGraph} (hf : t.Founded) (hpins : g.Pins)
    (hk : ∀ type ∈ g.joined node, t.Known type) :
    Builds (g.derive node) t fun derived t' =>
      ((g.get node).rule = .union → g.inputTypes node ≠ [] →
        ∃ type, derived = some type ∧ unionOf (g.inputTypes node) t' = (type, t')) ∧
      ∀ type pinned, derived = some type → (g.get node).rule = .pinned pinned → type = pinned := by
  have hjoined : (∀ type, (g.get node).rule ≠ .pinned type) →
      ∀ type ∈ g.inputTypes node, t.Known type := by
    intro hrule type htype
    refine hk type ?_
    unfold joined
    split
    next pinned heq => exact absurd heq (hrule pinned)
    next => exact htype
  unfold derive
  split
  next hnil =>
    refine .pure ⟨fun _ hne => absurd hnil hne, fun type pinned hsome hrule => ?_⟩
    split at hsome
    next => exact hpins.eq_of_typeOf hrule hsome
    next => simp at hsome
  next types hne =>
    refine (Rule.derive_builds hf hjoined).map fun type t' _ ⟨hunion, hpinned⟩ => ⟨?_, ?_⟩
    · exact fun hrule _ => ⟨type, rfl, hunion hrule⟩
    · exact fun other pinned hsome hrule => Option.some.inj hsome ▸ hpinned pinned hrule

theorem Session.Joins.of_types {s s' : Session} (h : s.Joins node type) (hf : s.types.Founded)
    (hinputs : s'.flow.inputTypes node = s.flow.inputTypes node) (hg : s.types.Grows s'.types) :
    s'.Joins node type := by
  have hlater : (unionOf (s.flow.inputTypes node) s.types).2.Grows s'.types := by
    rwa [h.union]
  have hagain := unionOf_again hf h.known hlater
  rw [h.union] at hagain
  exact ⟨by rw [hinputs]; exact fun input hinput => hg.known (h.known input hinput),
    by rw [hinputs, hagain]⟩

namespace Infer

variable {s s' : Session} {A A' : Agenda} {O : Set CallId}

/-- A type that a node may get: the union of its inputs, or the type that it is fixed to. -/
structure Suits (s : Session) (node : NodeId) (type : TypeId) : Prop where
  joins : (s.flow.get node).rule = .union → s.flow.inputTypes node ≠ [] → s.Joins node type
  pinned : ∀ pinned, (s.flow.get node).rule = .pinned pinned → type = pinned

theorem change?_leads (hs : s.Tended A) (node : NodeId) :
    Leads O (change? node) s A A fun change s' => ∃ t, s' = { s with types := t } ∧
      s.types.Extends t ∧ (change = none → s'.IsJoined node) ∧
      ∀ type, change = some type → Suits s' node type := by
  refine (known_forM_leads _).bind fun _ s1 _ ⟨hsame, hknown⟩ => ?_
  subst hsame
  refine (build_leads hs (FlowGraph.derive_builds hs.types hs.pins hknown)).bind
    fun derived s2 _ ⟨t, hs2, hext, hderived, hpinned⟩ => ?_
  subst hs2
  have hknown' : (s.flow.get node).rule = .union →
      ∀ type ∈ s.flow.inputTypes node, t.Known type := by
    intro hrule type htype
    refine hext.known (hknown type ?_)
    rwa [FlowGraph.joined, hrule]
  refine .pure ⟨t, rfl, hext, fun hnone hrule hinputs => ?_, fun type hsome => ?_⟩
  · obtain ⟨type, htype, hunion⟩ := hderived hrule hinputs
    refine ⟨type, ⟨hknown' hrule, hunion⟩, ?_⟩
    split at hnone
    next heq => exact heq.symm.trans htype
    next => exact absurd (hnone.symm.trans htype) (by simp)
  · split at hsome
    next => simp at hsome
    next =>
      refine ⟨fun hrule hinputs => ?_, fun pinned => hpinned type pinned hsome⟩
      obtain ⟨type', htype, hunion⟩ := hderived hrule hinputs
      obtain rfl := Option.some.inj (htype.symm.trans hsome)
      exact ⟨hknown' hrule, hunion⟩

/-! ## Giving nodes types -/

/-- Only the types and the waiting results have changed. -/
def SameButTypes (s s' : Session) : Prop :=
  ∃ t outputs, s' = { s with types := t, outputs := outputs } ∧ s.types.Extends t

theorem takeOutput_leads (hs : s.Tended A) (body : NodeId) :
    Leads O (takeOutput body) s A A fun _ s' => SameButTypes s s' :=
  .ok rfl (.of_move hs (.aside _ _ _ _ _ fun _ h => Or.inl (List.mem_filter.1 h).1))
    ⟨s.types, _, rfl, .refl _⟩

theorem checkOutput_leads (hs : s.Tended A) (body : NodeId) (found : TypeId)
    (declared : DeclaredOutput) :
    Leads O (checkOutput body found declared) s A A fun free s' => SameButTypes s s' ∧
      (restrict declared.owner declared.output found declared.free s.types).1
        = (some found, free) := by
  have hbuilds : Builds (restrict declared.owner declared.output found declared.free)
      s.types fun result t => restrict declared.owner declared.output found
        declared.free s.types = (result, t) :=
    ⟨(restrict_joining Founded.keptByJoins hs.types _ _ _ _).extends_, rfl⟩
  refine (build_leads hs hbuilds).bind fun ⟨accepted, free⟩ s1 _ ⟨t, hs1, hext, hrun⟩ => ?_
  subst hs1
  dsimp only
  split
  next haccepted => exact .pure ⟨⟨t, _, rfl, hext⟩, by rw [hrun, haccepted]⟩
  next => exact .get_bind (.fail _ _)

theorem SameButTypes.trans {s'' : Session} (h : SameButTypes s s') (h' : SameButTypes s' s'') :
    SameButTypes s s'' := by
  obtain ⟨t, outputs, rfl, hext⟩ := h
  obtain ⟨t', outputs', rfl, hext'⟩ := h'
  exact ⟨t', outputs', rfl, hext.trans hext'⟩

/-- The session after a node has got a type. -/
def Assigned (s s' : Session) (node : NodeId) (type : TypeId) : Prop :=
  ∃ s1, SameButTypes s s1 ∧ s' = s1.withFlow (s1.flow.setType node (some type))

theorem Assigned.observers_eq (h : Assigned s s' node type) (other : NodeId) :
    (s'.flow.get other).observers = (s.flow.get other).observers := by
  obtain ⟨s1, ⟨t, outputs, rfl, -⟩, rfl⟩ := h
  exact FlowGraph.observers_setType s.flow node other (some type)

theorem Assigned.cache_eq (h : Assigned s s' node type) : s'.cache = s.cache := by
  obtain ⟨s1, ⟨t, outputs, rfl, -⟩, rfl⟩ := h
  rfl

theorem assign_leads {type : TypeId} (hs : s.Tended A)
    (hmove : ∀ s1, SameButTypes s s1 →
      ((s1.flow.get node).frozen = true → s1.typeOf node = none ∨ s1.typeOf node = some type) →
      Move O (s1, A) (s1.withFlow (s1.flow.setType node (some type)), A')) :
    Leads O (assign node type) s A A' fun _ s' => Assigned s s' node type := by
  have hset : ((s.flow.get node).frozen = true →
        s.typeOf node = none ∨ s.typeOf node = some type) →
      ∀ s1, s1.Tended A → SameButTypes s s1 →
      Leads O (modifyFlow (·.setType node (some type))) s1 A A' fun _ s' =>
        Assigned s s' node type := by
    intro hfrozen s1 hs1 hsame
    refine .ok rfl (.of_move hs1 (hmove s1 hsame ?_)) ⟨s1, hsame, rfl⟩
    obtain ⟨t, outputs, rfl, -⟩ := hsame
    exact hfrozen
  have hrefl : SameButTypes s s := ⟨_, _, rfl, .refl _⟩
  refine Leads.get_bind ?_
  dsimp only
  split
  next =>
    split
    next current hcurrent =>
      split
      next => exact Leads.fail _ _
      next hsame =>
        obtain rfl : current = type := not_not.1 hsame
        exact hset (fun _ => Or.inr hcurrent) s hs hrefl
    next hnone =>
      have hset := hset fun _ => Or.inl hnone
      refine (takeOutput_leads hs node).next hs fun declared s1 h1 hs1 hsame1 => ?_
      split
      next =>
        refine (checkOutput_leads hs1 node type _).bind fun _ s2 h2 hchecked => ?_
        exact hset s2 (h2.tended hs1) (hsame1.trans hchecked.1)
      next => exact hset s1 hs1 hsame1
  next hfrozen => exact hset (fun htrue => absurd htrue hfrozen) s hs hrefl

theorem assign_derived_leads (hs : s.Tended A) (h : Suits s node type) :
    Leads O (assign node type) s A ((A.dropNode node).withObservers (s.flow.get node).observers)
      fun _ s' => Assigned s s' node type := by
  refine assign_leads hs fun s1 hsame hfrozen => ?_
  obtain ⟨t, outputs, rfl, hext⟩ := hsame
  refine .assign (fun hrule hinputs => ?_) h.pinned hfrozen
  exact (h.joins hrule hinputs).of_types hs.types rfl hext.grows

/-! ## Working off the agenda -/

section Engine

variable {engine : Engine}

/-- What is looked at when it is woken: calls that are there. -/
def Awake (s : Session) (observers : List Observer) : Prop :=
  ∀ call, .call call ∈ observers → s.HasCall call

/-- Looking at one observer takes it off the agenda, and puts there what it wakes. -/
theorem wake_leads
    {β : Type} {observer : Observer} {rest : List Observer} {f : List Observer → Infer β}
    {R : β → Session → Prop} (he : engine.Guides)
    (hs : s.Tended (A.withObservers (observer :: rest))) (hawake : Awake s (observer :: rest))
    (hf : ∀ woken s1,
      Episode ∅ (s, A.withObservers (observer :: rest)) (s1, A.withObservers (woken ++ rest)) →
      Awake s1 (woken ++ rest) →
      Leads ∅ (f woken) s1 (A.withObservers (woken ++ rest)) A' R) :
    Leads ∅ (wake engine observer >>= f) s (A.withObservers (observer :: rest)) A' R := by
  have hrest : ∀ s1, s.Before s1 → Awake s1 rest := fun s1 hb call hcall =>
    hb.hasCall (hawake call (List.mem_cons_of_mem _ hcall))
  cases observer with
  | call call =>
    have hcall : s.HasCall call := hawake call List.mem_cons_self
    simp only [wake, bind_assoc, pure_bind]
    refine ((he.recalculate call hs hcall).wait hs (A.dropCall_withObservers_le call rest)).bind
      fun _ s1 h1 _ => ?_
    exact hf [] s1 h1 (hrest s1 h1.before)
  | node node =>
    simp only [wake, bind_assoc]
    refine (change?_leads hs node).next hs
      fun change s1 h1 hsound ⟨t, hs1, hext, hnone, hsome⟩ => ?_
    cases change with
    | none =>
      have hjoined : Episode ∅ (s1, A.withObservers (.node node :: rest))
          (s1, A.withObservers rest) :=
        (Episode.of_move hsound (.joined (hnone rfl))).wait hsound
          (A.dropNode_withObservers_le node rest)
      exact .of_run rfl hjoined (hf [] s1 (h1.trans hjoined) (hrest s1 h1.before))
    | some type =>
      simp only [bind_assoc, pure_bind]
      have hagenda : ((A.withObservers (.node node :: rest)).dropNode node).withObservers
          (s1.flow.get node).observers
            ≤ A.withObservers ((s1.flow.get node).observers ++ rest) := by
        rw [← Agenda.withObservers_append]
        exact Agenda.withObservers_mono (A.dropNode_withObservers_le node rest) _
      refine ((assign_derived_leads hsound (hsome type rfl)).wait hsound hagenda).bind
        fun _ s2 h2 hassigned => .get_bind ?_
      have hawake2 : Awake s2 ((s1.flow.get node).observers ++ rest) := by
        intro call hcall
        rcases List.mem_append.1 hcall with hwoken | hwaiting
        · exact h2.before.hasCall (hsound.observers node call hwoken)
        · exact hrest s2 (h1.trans h2).before call hwaiting
      rw [hassigned.observers_eq]
      exact hf _ s2 (h1.trans h2) hawake2

theorem propagate_leads {budget : Nat} {observers : List Observer} (he : engine.Guides)
    (hs : s.Tended (A.withObservers observers)) (hawake : Awake s observers) :
    Leads ∅ (propagate engine budget observers) s (A.withObservers observers) A
      fun _ _ => True := by
  induction budget generalizing s observers with
  | zero =>
    cases observers with
    | nil => exact (Leads.pure trivial).wait hs A.withObservers_nil_le
    | cons first rest => exact .throw _
  | succ budget ih =>
    cases observers with
    | nil => exact (Leads.pure trivial).wait hs A.withObservers_nil_le
    | cons first rest =>
      exact wake_leads he hs hawake fun woken s1 h1 hawake1 => ih (h1.tended hs) hawake1

/-- The depth of propagations is not part of the agenda. -/
theorem deeper_leads {α : Type} {x : Infer α} (hs : s.Tended A)
    (hx : ∀ s1, s1.Tended A → s1.flow = s.flow → Leads O x s1 A A' fun _ _ => True) :
    Leads O (deeper x) s A A' fun _ _ => True := by
  exact .enclosed s.enterWave
    (fun s' => { s' with propagationDepth := s'.propagationDepth - 1 }) hs
    (.aside _ _ _ _ _ fun _ => Or.inl) (fun _ _ => .aside _ _ _ _ _ fun _ => Or.inl)
    (fun _ _ hrun => by simp [deeper, hrun]) (fun _ _ hrun => by simp [deeper, hrun])
    fun hs1 _ => hx _ hs1 rfl

section

variable (he : engine.Guides)
include he

theorem notify_leads (hs : s.Tended (A.withObservers (s.flow.get node).observers)) :
    Leads ∅ (notify engine node) s (A.withObservers (s.flow.get node).observers) A
      fun _ _ => True := by
  refine Leads.get_bind ?_
  dsimp only
  split
  next hempty =>
    have hnil : (s.flow.get node).observers = [] := by simpa using hempty
    rw [hnil] at hs ⊢
    exact (Leads.pure trivial).wait hs A.withObservers_nil_le
  next hobserved =>
    refine deeper_leads hs fun s1 hs1 hflow => .get_bind ?_
    split
    next => exact .fail _ _
    next =>
      refine propagate_leads he hs1 fun call hcall => ?_
      exact hs1.observers node call (hflow ▸ hcall)

/-- Deriving the type of a node anew takes it off the agenda. -/
theorem update_leads (hs : s.Tended (A.withNode node)) :
    Leads ∅ (update engine node) s (A.withNode node) A fun _ _ => True := by
  refine (change?_leads hs node).next hs fun change s1 h1 hsound ⟨t, hs1, hext, hnone, hsome⟩ => ?_
  cases change with
  | none =>
    have hjoined := (Episode.of_move (O := ∅) (A := A.withNode node) hsound
      (.joined (hnone rfl))).wait hsound (A.dropNode_withNode_le node)
    exact .of_run rfl hjoined (.pure trivial)
  | some type =>
    have hagenda := Agenda.withObservers_mono (A.dropNode_withNode_le node)
      (s1.flow.get node).observers
    refine ((assign_derived_leads hsound (hsome type rfl)).wait hsound hagenda).next hsound
      fun _ s2 h2 hs2 hassigned => ?_
    rw [← hassigned.observers_eq] at hs2 ⊢
    exact notify_leads he hs2

/-- A call that has targets still has some after an update. -/
theorem update_resolved_leads (hs : s.Tended (A.withNode node)) (hcall : s.HasCall call)
    (hne : (s.call call).targets ≠ none) :
    Leads O (update engine node) s (A.withNode node) A fun _ s' =>
      (s'.call call).targets ≠ none := by
  have hupdate := (update_leads he hs).post fun _ s1 h1 _ =>
    h1.targets_ne_none hcall (Set.notMem_empty call) hne
  exact hupdate.mono (Set.empty_subset O)

/-- A call with an argument that does not return does not return, and tells its observers. -/
theorem setType_noReturn_leads (hs : s.Tended A) (hcall : s.HasCall call)
    (hdead : s.HasDeadArg call) :
    Leads ∅ (setType engine (s.call call).node .noReturn) s A A fun _ _ => True := by
  have hassign : Leads ∅ (assign (s.call call).node .noReturn) s A
      (A.withObservers (s.flow.get (s.call call).node).observers) fun _ s' =>
        Assigned s s' (s.call call).node .noReturn := by
    refine assign_leads hs fun s1 hsame hfrozen => ?_
    obtain ⟨t, outputs, rfl, -⟩ := hsame
    exact .kill hcall hdead hfrozen
  refine hassign.next hs fun _ s1 h1 hs1 hassigned => ?_
  rw [← hassigned.observers_eq] at hs1 ⊢
  exact notify_leads he hs1

end

theorem links_episode (hs : s.Tended (A.withNode node)) (hnode : s.IsSlot node)
    (hinputs : ∀ input ∈ inputs, s.HasNode input) :
    Episode O (s, A.withNode node)
      (s.withFlow (inputs.foldl (fun flow input => flow.addEdge node input) s.flow),
        A.withNode node) := by
  induction inputs generalizing s with
  | nil => exact .refl _
  | cons first rest ih =>
    have hlink : Episode O (s, A.withNode node)
        (s.withFlow (s.flow.addEdge node first), A.withNode node) :=
      (Episode.of_move hs (.link hnode (hinputs first List.mem_cons_self))).wait hs
        (Agenda.withNode_withNode_le A node)
    refine hlink.trans (ih (hlink.tended hs) (hlink.before.isSlot hnode) fun input hinput => ?_)
    exact hlink.before.hasNode (hinputs input (List.mem_cons_of_mem first hinput))

/-- A slot comes to depend on nodes that are there. -/
theorem connect_leads (he : engine.Guides) (hs : s.Tended A) (hnode : s.IsSlot node)
    (hinputs : ∀ input ∈ inputs, s.HasNode input) :
    Leads ∅ (connect engine node inputs) s A A fun _ _ => True := by
  have hwait : Episode ∅ (s, A) (s, A.withNode node) := .of_move hs (.wait (A.le_withNode node))
  have hlinks := hwait.trans (links_episode (hwait.tended hs) hnode hinputs)
  exact .step rfl hlinks (update_leads he (hlinks.tended hs))

theorem notify_of_not_observed (h : (s.flow.get node).observers = []) :
    notify engine node s = .ok () s := by
  have hempty : (s.flow.get node).observers.isEmpty = true := by rw [h]; rfl
  change (if (s.flow.get node).observers.isEmpty then pure ⟨⟩ else _ : Infer Unit) s = _
  rw [if_pos hempty]
  rfl

/-- Without observers nothing is looked at, and the cache stays as it is. -/
theorem connect_quiet_leads {input : NodeId} (hs : s.Tended A) (hnode : s.IsSlot node)
    (hinput : s.HasNode input) (hne : input ≠ node)
    (hobservers : (s.flow.get node).observers = []) :
    Leads O (connect engine node [input]) s A A fun _ s' => s'.cache = s.cache := by
  have hwait : Episode O (s, A) (s, A.withNode node) := .of_move hs (.wait (A.le_withNode node))
  have hlinks : Episode O (s, A)
      (s.withFlow (s.flow.addEdge node input), A.withNode node) := by
    have hinputs : ∀ other ∈ [input], s.HasNode other := by simpa using hinput
    exact hwait.trans (links_episode (hwait.tended hs) hnode hinputs)
  have hs1 := hlinks.tended hs
  have hobservers1 : ((s.flow.addEdge node input).get node).observers = [] := by
    refine List.eq_nil_iff_forall_not_mem.2 fun other hother => ?_
    rcases (FlowGraph.mem_observers_addEdge s.flow node node input other).1 hother with h | h
    · simp [hobservers] at h
    · exact hne h.2.2.1
  refine .step rfl hlinks ?_
  refine (change?_leads hs1 node).next hs1
    fun change s2 h2 hsound ⟨t, hs2, hext, hnone, hsome⟩ => ?_
  have hcache : s2.cache = s.cache := by rw [hs2]; rfl
  cases change with
  | none =>
    have hjoined := (Episode.of_move (O := O) (A := A.withNode node) hsound
      (.joined (hnone rfl))).wait hsound (A.dropNode_withNode_le node)
    exact .of_run rfl hjoined (.pure hcache)
  | some type =>
    have hflow : s2.flow = s.flow.addEdge node input := by rw [hs2]; rfl
    have hagenda : ((A.withNode node).dropNode node).withObservers (s2.flow.get node).observers
        ≤ A := by
      rw [hflow, hobservers1]
      exact Agenda.le_trans (Agenda.withObservers_nil_le _) (A.dropNode_withNode_le node)
    refine ((assign_derived_leads hsound (hsome type rfl)).wait hsound hagenda).bind
      fun _ s3 h3 hassigned => ?_
    have hquiet : (s3.flow.get node).observers = [] := by
      rw [hassigned.observers_eq, hflow, hobservers1]
    exact .ok (notify_of_not_observed hquiet) (.refl _) (hassigned.cache_eq.trans hcache)

end Engine

end Infer

end Callsite
