import Callsite.Proofs.Forest.Resolution

/-!
# Constructors over a forest

A class of a forest has no `initialize`, so the first call of `new` on it writes a constructor that
allocates an object.  Later calls find it.
-/

namespace Callsite

open Forest TypeTable

namespace TypeTable

variable {t : TypeTable} {classes : List ClassSource} {c : ClassSource}
  {type metaType owner : TypeId}
  {method : MethodId} {origin : Origin}

/-- The constructor of a class is worth an object of it. -/
theorem evaluates_allocator (hknown : method.index < t.methods.size)
    (hmethod : t.method method = ⟨method, allocatorDecl, owner, .constructor, none⟩)
    (hshape : t.shape metaType = .metaclass type) : t.Evaluates method metaType type := by
  refine ⟨hknown, ?_, ?_, .generated (.allocate none), ?_, ?_⟩
  · rw [hmethod]
    rfl
  · rw [hmethod]
    rfl
  · rw [hmethod]
    rfl
  · simp only [Expr.generated, valueOf?, hshape]

theorem Represents.isConstructible (h : t.Represents c type)
    (hshape : t.shape metaType = .metaclass type) : t.isConstructible metaType = true := by
  obtain ⟨info, hinfo, -⟩ := h.shape
  simp [TypeTable.isConstructible, hshape, isClass, isPointer, hinfo]

end TypeTable

namespace Infer

open Session

variable {s : Session} {classes : List ClassSource} {taken : List NodeId} {call : CallId}
  {c : ClassSource}
  {type metaType : TypeId} (fuel : Nat)

variable (h : s.Ready classes taken call)
include h

/-- The constructor of a class is written. -/
theorem defineConstructors_returns (hshape : s.types.shape metaType = .metaclass type) :
    Returns (defineConstructors call metaType []) s
      (.complete [⟨⟨s.types.methods.size⟩, metaType, [], .empty, .constructor⟩] metaType)
      { s with types := (register metaType allocatorDecl .constructor s.types).2 } := by
  have hinits := h.planted.methodsNamed_initialize type
  have hinstance : s.types.instanceType metaType = type := by rw [instanceType, hshape]
  have hblock : (s.call call).hasBlock = false := by simp [CallSite.hasBlock, h.block]
  have hfitting : s.types.fittingMethods type "initialize" 0 false = [] := by
    simp [fittingMethods, hinits]
  have hlookup := lookupMatches_of_not_fitting hfitting
  have hbuild : Returns (build (lookupMatches type "initialize" [] false)) s
      ⟨[], some (.ofArgs s.types []), type⟩ s := by
    rw [Returns, build, hlookup]
  refine .get_bind ?_
  simp only [hinstance, hblock]
  refine hbuild.bind ?_
  refine .get_bind ?_
  simp only [hinits, List.isEmpty_nil, Bool.not_true, Bool.false_eq_true, if_false]
  exact rfl

/-- A call of `new` on a class of the forest finds its constructor, written before or now. -/
theorem findMatches_new (hr : s.types.Represents c type)
    (hfind : s.types.find? (.metaclass type) = some metaType) :
    ∃ set found t, Returns (findMatches call metaType "new") s set { s with types := t } ∧
      set.isEmpty = false ∧ set.found = [found] ∧ found.args = [] ∧
      t.Evaluates found.method found.owner type ∧ t.Planted classes ∧ s.types.Grows t ∧
      t.constants = s.types.constants := by
  have hshape := shape_of_find? hfind
  have hnamed := h.planted.methodsNamed_new hfind
  -- Only constructors are called `new`, and they take no arguments.
  have hfitting : s.types.fittingMethods metaType "new" 0 false
      = s.types.methods.own metaType "new" := by
    rw [fittingMethods, hnamed, List.filter_eq_self]
    intro id hid
    obtain ⟨hslot, -, hname⟩ := mem_own.1 hid
    obtain ⟨owner, hmethod⟩ := (h.planted.methods id hslot).new hname
    rw [hmethod]
    rfl
  cases hown : s.types.methods.own metaType "new" with
  | cons id rest =>
    obtain ⟨set, hset, hfound, hmatches⟩ := findMatches_returns h (hfitting.trans hown)
    have hmem : id ∈ s.types.methods.own metaType "new" := by simp [hown]
    obtain ⟨hslot, -, hname⟩ := mem_own.1 hmem
    obtain ⟨owner, hmethod⟩ := (h.planted.methods id hslot).new hname
    refine ⟨set, _, s.types, hmatches, hset, hfound, rfl, ?_, h.planted, .refl _, rfl⟩
    exact evaluates_allocator (h.planted.regular.founded.slots id hslot) hmethod hshape
  | nil =>
    have hlookup := lookupMatches_of_not_fitting (hfitting.trans hown)
    have hbuild : Returns (build (lookupMatches metaType "new" [] false)) s
        ⟨[], some (.ofArgs s.types []), metaType⟩ s := by
      rw [Returns, build, hlookup]
    have hextends :=
      (register_builds (t := s.types) metaType allocatorDecl .constructor).1
    have hnew := method_register_self metaType allocatorDecl .constructor s.types
    refine ⟨.complete [⟨⟨s.types.methods.size⟩, metaType, [], .empty, .constructor⟩] metaType, _,
      _, .get_bind ?_, rfl, rfl, rfl, ?_, h.planted.register_new metaType, hextends.grows, rfl⟩
    · have hargs : s.argTypes call = [] := by simp [argTypes, CallSite.argNodes, h.args]
      have hblock : (s.call call).hasBlock = false := by simp [CallSite.hasBlock, h.block]
      simp only [hargs, hblock]
      refine hbuild.bind ?_
      refine .get_bind ?_
      simp only [hr.isConstructible hshape, decide_true, Bool.and_self, if_true]
      exact defineConstructors_returns h hshape
    · refine evaluates_allocator ?_ hnew hshape
      simp [register, MethodTable.register, MethodTable.size]

/-- A call of `new` on a class of the forest is resolved to its constructor. -/
theorem resolve_new_runs (hname : (s.call call).name = "new") (hr : s.types.Represents c type)
    (hfind : s.types.find? (.metaclass type) = some metaType) :
    Runs (resolve (.ofFuel (fuel + 1)) call (some metaType)) s fun ids s' =>
      s.Retains call s' ∧ s'.types.Planted classes ∧ s'.types.constants = s.types.constants ∧
        s'.watch = s.watch ∧ ∃ id, ids = [id] ∧ s'.HasInstance id ∧
          s'.types.Evaluates (s'.instanceAt id).method (s'.instanceAt id).owner type := by
  have hshape := shape_of_find? hfind
  obtain ⟨set, found, t, hmatches, hset, hfound, hargs, hevaluates, hplanted, hgrows, hconstants⟩ :=
    findMatches_new h hr hfind
  have hretyped : s.Retains call { s with types := t } := .retyped s hgrows
  have hready : ({ s with types := t } : Session).Ready classes taken call :=
    h.retained hretyped hplanted
  have hsettle := settle_runs fuel hready hset hfound hevaluates hargs metaType "new"
  have hmembers : s.types.members metaType = [metaType] := by simp [members, hshape]
  refine .get_bind ?_
  simp only [hname, hmembers, List.mapM_cons, List.mapM_nil]
  have hon : ∀ {Q}, Runs (settle (.ofFuel (fuel + 1)) call metaType none "new" set)
      { s with types := t } Q →
      Runs (resolveOn (.ofFuel (fuel + 1)) call none "new" metaType) s Q := by
    intro Q hq
    refine .get_bind ?_
    simp only [hshape]
    refine hmatches.runs_bind (.get_bind ?_)
    simp only [hset, Bool.false_and, Bool.false_eq_true, if_false]
    exact hq
  rw [bind_assoc]
  refine (hon hsettle).bind ?_
  rintro ids s' ⟨henlarges, hwatch, id, rfl, hid, hmethod, howner'⟩
  refine Returns.runs (.pure _ _)
    ⟨hretyped.trans henlarges.toRetains, ?_, ?_, hwatch, id, rfl, hid, ?_⟩
  · exact hplanted.widens henlarges.widens (henlarges.regular hplanted.regular)
  · exact henlarges.widens.constants_eq.trans hconstants
  · rw [hmethod, howner']
    exact hevaluates.later henlarges.grows

end Infer

end Callsite
