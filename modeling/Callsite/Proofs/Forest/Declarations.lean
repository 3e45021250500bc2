import Callsite.Proofs.Forest.Recalculation

/-!
# Declaring the classes of a forest

A class that fits after the others is declared at the top level, and its `coco` is defined in its
body.  The forest has one more class then, and all else in the session stays as it was up to the
point where the calls that watch an ancestor of the class are told of it.
-/

namespace Callsite

open Forest

namespace Session

variable {s s' : Session} {classes more : List ClassSource} {taken : List NodeId}
  {vars : NameMap NodeId}
  {call : CallId}

/-! ## The top level -/

/-- A session in which a forest has been declared, with the variables of the top level. -/
structure Hosts (s : Session) (classes : List ClassSource) (taken : List NodeId)
    (vars : NameMap NodeId) : Prop extends s.Grown classes taken where
  hasRoot : 0 < s.scopes.size
  root : s.scope .root = { Scope.top .program .program with vars }

theorem Retains.hosts (h : s.Retains call s') (hs : s.Hosts classes taken vars)
    (hplanted : s'.types.Planted more) : s'.Hosts more taken vars where
  toGrown := h.grown hs.toGrown hplanted
  hasRoot := hs.hasRoot.trans_le h.scopes_le
  root := (h.scopes .root hs.hasRoot).trans hs.root

theorem Retains.scoped (s : Session) (scope : Scope) : s.Retains call (s.withScope scope) where
  __ := Retains.refl call s
  scopes_le := by
    rw [withScope_scopes, Array.size_push]
    exact Nat.le_succ _
  scopes := fun id hid => (scope_withScope s scope id).trans (if_neg (hid.ne))
  stocked := fun _ _ hs =>
    hs.later (.refl _) le_rfl hs.thawed rfl (fun _ => rfl) (fun _ _ _ => rfl)
      fun _ => Or.inl

/-- A new node that depends on nothing. -/
theorem Retains.noded (s : Session) (node : FlowNode) (hthawed : node.frozen = false) :
    s.Retains call (s.withFlow ⟨s.flow.nodes.push node⟩) := by
  have hsize : s.flow.size ≤ (⟨s.flow.nodes.push node⟩ : FlowGraph).size := by
    rw [FlowGraph.size_push]
    exact Nat.le_succ _
  have hget : ∀ n, s.HasNode n → (⟨s.flow.nodes.push node⟩ : FlowGraph).get n = s.flow.get n := by
    intro n hn
    rw [FlowGraph.get_push, if_neg (hn.ne)]
  refine { Retains.refl call s with
    size_le := hsize, nodes := hget, stocked := fun taken _ hs => ?_ }
  refine hs.later (.refl _) hsize (fun n => ?_) rfl (fun _ => rfl) (fun n hn _ => ?_)
    fun _ => Or.inl
  · rw [withFlow_flow, FlowGraph.get_push]
    split
    · exact hthawed
    · exact hs.thawed n
  · exact congrArg FlowNode.type (hget n hn)

/-- A session before `coco` is called: nothing is watched, and all calls are of constructors. -/
structure Prepared (s : Session) (classes : List ClassSource) (taken : List NodeId)
    (vars : NameMap NodeId) : Prop extends s.Hosts classes taken vars where
  unwatched : s.watch.pairs = ∅
  news : ∀ id, s.HasCall id → (s.call id).name = "new" ∧ (s.call id).args = []

theorem Retains.prepared (h : s.Retains call s') (hs : s.Prepared classes taken vars)
    (hplanted : s'.types.Planted more) (hwatch : s'.watch = s.watch) :
    s'.Prepared more taken vars where
  toHosts := h.hosts hs.toHosts hplanted
  unwatched := by rw [hwatch, hs.unwatched]
  news := by
    intro id hid
    rw [h.call_eq]
    rw [HasCall, h.calls] at hid
    exact hs.news id hid

end Session

namespace TypeTable

variable {t : TypeTable} {classes : List ClassSource} {c : ClassSource} {type : TypeId}
  {name : String}

variable (h : t.Planted classes)
include h

/-- A name means the constant at the top level. -/
theorem Planted.pathType?_program (name : String) :
    t.pathType? .program .empty [name] false = t.constant? name := by
  have hshape := h.program
  have hinstance : t.instanceType .program = .program := by rw [instanceType, hshape]
  have hscope : t.lookupScope .program = .program := by simp only [lookupScope, hinstance, hshape]
  have hargument : t.typeArgument? .program name = none := by
    simp only [typeArgument?, hinstance, hshape]
  have hfree : (NameMap.empty : Bindings).get? name = none := rfl
  have hpath : "::".intercalate [name] = name := by simp
  simp [pathType?, hfree, hargument, hscope, lookupPath, hshape, hpath]

theorem Planted.denote_named (hconstant : t.constant? name = some type) (span : Span) :
    denote .program .empty span (.named name) t = .ok type t := by
  have hpath := (h.pathType?_program name).trans hconstant
  have hget : ∀ f : TypeTable → Denote TypeId, (get >>= f) t = f t t := fun _ => rfl
  rw [TypeExpr.named, denote, hget, hpath]
  rfl

theorem Planted.declaredClass?_eq_none (hc : c.FitsAfter classes) :
    t.declaredClass? c.name = none := by
  rw [declaredClass?, h.constants c.name hc.new, hc.fresh]
  rfl

theorem Planted.known_of_superclass (hc : c.FitsAfter classes) (hname : c.superclass = some name)
    (hconstant : t.constant? name = some type) : t.Known type := by
  obtain ⟨parent, hparent, rfl⟩ := List.mem_map.1 (hc.superclass name hname)
  exact (h.represents_of_constant hparent hconstant).known

end TypeTable

namespace Infer

open Session

variable {s : Session} {classes : List ClassSource} {taken : List NodeId} {vars : NameMap NodeId}
  {c : ClassSource} {type : TypeId} {name : String} (fuel : Nat)

theorem denoteIn_root (h : s.Hosts classes taken vars) (span : Span)
    (hconstant : s.types.constant? name = some type) :
    Returns (denoteIn .root span (.named name)) s type s := by
  refine .get_bind ?_
  rw [h.root]
  show denoting (TypeTable.denote .program .empty span (.named name)) s = .ok type s
  rw [denoting, h.planted.denote_named hconstant]

/-- What is written above a class of a forest is a class of the forest, if anything is. -/
theorem denote_superclass_returns (h : s.Hosts classes taken vars) (hfits : c.FitsAfter classes)
    (span : Span) :
    Returns (c.decl.superclass.mapM (denoteIn .root span)) s
      (c.superclass.bind s.types.constant?) s := by
  cases hsuper : c.superclass with
  | none =>
    rw [ClassSource.decl, hsuper]
    exact .pure none s
  | some name =>
    obtain ⟨parent, hparent, rfl⟩ := List.mem_map.1 (hfits.superclass name hsuper)
    obtain ⟨type, hr⟩ := h.planted.represents parent hparent
    rw [ClassSource.decl, hsuper, Option.bind_some, hr.constant]
    exact (denoteIn_root h span hr.constant).bind (.pure _ _)

/-- The body of a class of a forest defines its `coco`. -/
theorem visit_body_runs {scope : ScopeId} {cls : TypeId} (call : CallId)
    (hplanted : s.types.Planted (classes ++ [c.bare])) (hr : s.types.Represents c.bare cls)
    (hfits : c.FitsAfter classes) (howner : (s.scope scope).methodOwner = cls) :
    Runs (c.decl.body.forM fun expr => do let _ ← (Engine.ofFuel (fuel + 1)).visit scope expr) s
      fun _ s' => s.Retains call s' ∧ s'.watch = s.watch ∧ s'.types.Planted (classes ++ [c]) ∧
        ∀ t : TypeTable, t.Gains s.types cls → t.Gains s'.types cls := by
  cases hcoco : c.coco with
  | none =>
    have hbare : c.bare = c := by
      rw [ClassSource.bare, ← hcoco]
    have hbody : c.decl.body = [] := by simp [ClassSource.decl, hcoco]
    rw [hbody]
    exact Returns.runs (.pure _ _) ⟨.refl call s, rfl, hbare ▸ hplanted, fun _ => id⟩
  | some d =>
    have hbody : c.decl.body = [d.expr] := by simp [ClassSource.decl, hcoco]
    have hgrows := (TypeTable.register_builds (t := s.types) cls d.decl .user).1.grows
    let s1 : Session := { s with types := (TypeTable.register cls d.decl .user s.types).2 }
    have hmethod : Returns (visitMethod scope d.decl) s () s1 := by
      subst howner
      rfl
    have hnode : Returns (typedNode .nil d.span) s1 ⟨s1.flow.size⟩
      (s1.withFlow (s1.flow.addTyped .nil d.span).2) := rfl
    have hvisit : Returns (do let _ ← (Engine.ofFuel (fuel + 1)).visit scope d.expr) s ()
        (s1.withFlow (s1.flow.addTyped .nil d.span).2) :=
      Returns.bind (hmethod.bind hnode) (.pure () _)
    rw [hbody]
    refine hvisit.runs_bind (Returns.runs (.pure () _) ?_)
    refine ⟨(Retains.retyped s hgrows).trans (.noded s1 _ rfl), rfl, ?_, fun t ht => ?_⟩
    · exact hplanted.define hr hfits.new hcoco
    · exact ht.register cls d.decl .user

section

variable (h : s.Hosts classes taken vars) (hfits : c.FitsAfter classes) (call : CallId)
include h hfits

/-- A class that fits after the others is declared, and then the calls that watch it are told. -/
theorem visitClass_runs {Q : Unit → Session → Prop} (span : Span)
    (hnotice : ∀ cls s', s.Retains call s' → s'.watch = s.watch →
      s'.types.Planted (classes ++ [c]) →
      s.types.Gains s'.types cls → Runs (noticeSubclass (.ofFuel (fuel + 1)) cls) s' Q) :
    Runs (visitClass (.ofFuel (fuel + 1)) .root c.decl span) s Q := by
  obtain ⟨t1, metaType, t2, hdeclare, hmeta, hplanted, hr, hgains⟩ := h.planted.declare hfits
  have hnone : (s.types.declaredClass? c.decl.name).isNone = true := by
    rw [show c.decl.name = c.name from rfl, h.planted.declaredClass?_eq_none hfits]
    rfl
  have hparents : Returns ((c.superclass.bind s.types.constant?).toList.forM known) s () s := by
    apply forM_known_returns
    intro parent hparent
    have hsome := Option.mem_toList.1 hparent
    obtain ⟨name, hname, hconstant⟩ := Option.bind_eq_some_iff.1 hsome
    exact h.planted.known_of_superclass hfits hname hconstant
  have hdeclared : Returns (build (TypeTable.declareClass c.decl.name
      (c.superclass.bind s.types.constant?) c.decl.isAbstract c.decl.typeVars)) s
      (⟨s.types.size⟩, true) { s with types := t1 } := by
    rw [Returns, build, show c.decl.isAbstract = false from rfl, show c.decl.typeVars = [] from rfl,
      show c.decl.name = c.name from rfl, hdeclare]
  have hmetaclass : Returns (build (TypeTable.metaclass ⟨s.types.size⟩))
      { s with types := t1 } metaType
      { s with types := t2 } := by
    rw [Returns, build, hmeta]
  let s1 : Session := { s with types := t2 }
  have hscope : Returns (pushScope (.top metaType ⟨s.types.size⟩)) s1 ⟨s.scopes.size⟩
    (s1.withScope (.top metaType ⟨s.types.size⟩)) := rfl
  have howner : ((s1.withScope (.top metaType ⟨s.types.size⟩)).scope ⟨s.scopes.size⟩).methodOwner
      = ⟨s.types.size⟩ := by
    rw [scope_withScope, if_pos rfl]
    rfl
  have hretains : s.Retains call (s1.withScope (.top metaType ⟨s.types.size⟩)) :=
    (Retains.retyped s hgains.grows).trans (.scoped s1 _)
  refine (denote_superclass_returns h hfits span).runs_bind (.get_bind ?_)
  simp only [hnone, if_true]
  refine hparents.runs_bind (hdeclared.runs_bind (hmetaclass.runs_bind (hscope.runs_bind ?_)))
  refine (visit_body_runs fuel call hplanted hr hfits howner).bind ?_
  rintro - s' ⟨hretains', hwatch, hplanted', hgains'⟩
  exact hnotice _ s' (hretains.trans hretains') hwatch hplanted' (hgains' _ hgains)

/-- The declaration of a class is worth `nil`. -/
theorem visit_class_runs {P : Session → Prop}
    (hnotice : ∀ cls s', s.Retains call s' → s'.watch = s.watch →
      s'.types.Planted (classes ++ [c]) →
      s.types.Gains s'.types cls → Runs (noticeSubclass (.ofFuel (fuel + 1)) cls) s' fun _ => P) :
    Runs (visitWith (.ofFuel (fuel + 1)) .root c.expr) s fun _ s'' =>
      ∃ s', P s' ∧ s'' = s'.withFlow (s'.flow.addTyped .nil c.span).2 := by
  refine (visitClass_runs _ h hfits call c.span hnotice).bind ?_
  rintro - s' hp
  exact Returns.runs rfl ⟨s', hp, rfl⟩

end

/-- Without a call that watches an ancestor nobody is told. -/
theorem noticeSubclass_returns {cls : TypeId} (engine : Engine)
    (h : s.watch.observersOfAny ((s.types.ancestors cls).drop 1) = []) :
    Returns (noticeSubclass engine cls) s () s := by
  refine .get_bind ?_
  simp only [h]
  exact .pure _ _

theorem visit_class_prepared_runs (h : s.Prepared classes taken vars)
    (hfits : c.FitsAfter classes) :
    Runs (visitWith (.ofFuel (fuel + 1)) .root c.expr) s fun _ s' =>
      s'.Prepared (classes ++ [c]) taken vars := by
  refine (visit_class_runs (P := (·.Prepared (classes ++ [c]) taken vars)) fuel h.toHosts hfits
    default fun cls s' hretains hwatch hplanted _ => ?_).mono ?_
  · have hprepared := hretains.prepared h hplanted hwatch
    refine (noticeSubclass_returns _ ?_).runs hprepared
    refine List.eq_nil_iff_forall_not_mem.2 fun call hcall => ?_
    obtain ⟨base, -, hpair⟩ := hprepared.agrees.mem_observersOfAny.1 hcall
    rw [hprepared.unwatched] at hpair
    exact hpair.elim
  · rintro - _ ⟨s', hs', rfl⟩
    have hretains : s'.Retains default (s'.withFlow (s'.flow.addTyped .nil c.span).2) :=
      .noded s' _ rfl
    exact hretains.prepared hs' hs'.planted rfl

/-- The classes of a forest are declared one after the other. -/
theorem visit_classes_prepared_runs {rest : List ClassSource} (h : s.Prepared classes taken vars)
    (hrest : Declarable classes rest) :
    Runs ((rest.map ClassSource.expr).mapM (visitWith (.ofFuel (fuel + 1)) .root)) s fun _ s' =>
      s'.Prepared (classes ++ rest) taken vars := by
  induction rest generalizing s classes with
  | nil =>
    rw [List.append_nil]
    exact Returns.runs (.pure _ _) h
  | cons c rest ih =>
    rw [List.map_cons, List.mapM_cons]
    refine (visit_class_prepared_runs _ h hrest.1).bind fun _ s' hs' => ?_
    refine (ih hs' hrest.2).bind fun _ s'' hs'' => Returns.runs (.pure _ _) ?_
    rwa [List.append_assoc] at hs''

end Infer

end Callsite
