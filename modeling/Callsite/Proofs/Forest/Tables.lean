import Callsite.Proofs.Forest.Sources
import Callsite.Proofs.Matching.Dispatch
import Callsite.Proofs.Types.Inheritance

/-!
# Tables with a forest of classes

What the table of types knows of a forest that has been declared: its classes stand below each
other as they are written, and the only methods called `coco` are theirs.  So the first `coco`
that a class answers to is that of the nearest class that defines one, and a union of classes is
made of classes of the forest and of hierarchies over them.
-/

namespace Callsite.TypeTable

open Forest

variable {t t' : TypeTable} {classes : List ClassSource} {c c' : ClassSource}
  {type owner x : TypeId}
variable {id : MethodId} {name : String}

/-- A type is a class of a forest. -/
structure Represents (t : TypeTable) (c : ClassSource) (type : TypeId) : Prop where
  constant : t.constant? c.name = some type
  after : TypeId.pointer.index < type.index
  shape : ∃ info, t.shape type = .cls info ∧ info.name = c.name ∧ info.isAbstract = false ∧
    info.typeVars = []
  parent : ∃ above, t.above? type = some above ∧
    c.superclass.elim (some .reference) t.constant? = some above
  metaclass : ∃ metaType, t.find? (.metaclass type) = some metaType
  method : ∀ d, c.coco = some d →
    ∃ id ∈ t.methods.slots, t.method id = ⟨id, d.decl, type, .user, none⟩

/-- A method called `coco` is that of a class, one called `new` is a generated constructor, and none
is called `initialize`. -/
structure IsPlanted (constant? : String → Option TypeId) (classes : List ClassSource)
    (id : MethodId) (m : Method) : Prop where
  coco : m.name = "coco" → ∃ c ∈ classes, ∃ d type, c.coco = some d ∧
    constant? c.name = some type ∧ m = ⟨id, d.decl, type, .user, none⟩
  new : m.name = "new" → ∃ owner, m = ⟨id, allocatorDecl, owner, .constructor, none⟩
  init : m.name ≠ "initialize"

/-- A table in which exactly the given classes have been declared by a program. -/
structure Planted (t : TypeTable) (classes : List ClassSource) : Prop where
  regular : t.Regular
  overClasses : t.OverClasses
  grown : standard.Grows t
  constants : ∀ name, name ∉ classes.map ClassSource.name →
    t.constant? name = standard.constant? name
  represents : ∀ c ∈ classes, ∃ type, t.Represents c type
  declared : ∀ type info, t.shape type = .cls info → TypeId.pointer.index < type.index →
    ∃ c ∈ classes, t.constant? c.name = some type
  methods : ∀ id ∈ t.methods.slots, IsPlanted t.constant? classes id (t.method id)

/-! ## Classes of the forest -/

namespace Represents

variable (h : t.Represents c type)
include h

theorem known : t.Known type := by
  obtain ⟨info, hshape, -⟩ := h.shape
  exact known_of_shape_ne (by simp [hshape])

theorem isConcrete : t.IsConcrete type := by
  obtain ⟨info, hshape, -, habstract, -⟩ := h.shape
  exact ⟨info, hshape, habstract⟩

theorem mergeClass? : t.mergeClass? type = some type := by
  obtain ⟨info, hshape, -, -, hvars⟩ := h.shape
  simp [TypeTable.mergeClass?, hshape, hvars]

theorem parts : t.parts type = [type] := by
  obtain ⟨info, hshape, -⟩ := h.shape
  simp [TypeTable.parts, hshape]

/-- A type is the class of one name only. -/
theorem name_eq (h' : t.Represents c' type) : c.name = c'.name := by
  obtain ⟨info, hshape, hname, -⟩ := h.shape
  obtain ⟨info', hshape', hname', -⟩ := h'.shape
  obtain rfl := Shape.cls.inj (hshape.symm.trans hshape')
  exact hname.symm.trans hname'

/-- Classes of a forest stay what they are. -/
theorem later (hg : t.Grows t')
    (hconstants : ∀ name type, t.constant? name = some type → t'.constant? name = some type)
    (hslots : ∀ id ∈ t.methods.slots, id.index < t.methods.size)
    (hmethods : ∀ d, c.coco = some d → ∀ id ∈ t.methods.slots,
      t.method id = ⟨id, d.decl, type, .user, none⟩ → id ∈ t'.methods.slots) :
    t'.Represents c type where
  constant := hconstants _ _ h.constant
  after := h.after
  shape := by
    obtain ⟨info, hshape, hname, habstract, hvars⟩ := h.shape
    obtain ⟨more, hlater⟩ := hg.shape_cls hshape
    exact ⟨_, hlater, hname, habstract, hvars⟩
  parent := by
    obtain ⟨above, habove, hparent⟩ := h.parent
    refine ⟨above, (hg.above?_eq h.known).trans habove, ?_⟩
    cases hsuper : c.superclass with
    | none => rwa [hsuper] at hparent
    | some name =>
      rw [hsuper] at hparent
      exact hconstants name above hparent
  metaclass := by
    obtain ⟨metaType, hfind⟩ := h.metaclass
    exact ⟨metaType, hg.find?_eq_some (by simp) (by simp) hfind⟩
  method := by
    intro d hd
    obtain ⟨id, hid, hmethod⟩ := h.method d hd
    exact ⟨id, hmethods d hd id hid hmethod, (hg.method id (hslots id hid)).trans hmethod⟩

end Represents

namespace Planted

variable (h : t.Planted classes)
include h

/-- A class of the forest is what its name means. -/
theorem represents_of_constant (hc : c ∈ classes) (hconstant : t.constant? c.name = some type) :
    t.Represents c type := by
  obtain ⟨type', hr⟩ := h.represents c hc
  obtain rfl := Option.some.inj (hr.constant.symm.trans hconstant)
  exact hr

/-- A class declared after the standard ones is a class of the forest. -/
theorem represents_of_shape {info : ClassInfo} (hshape : t.shape type = .cls info)
    (hafter : TypeId.pointer.index < type.index) : ∃ c ∈ classes, t.Represents c type := by
  obtain ⟨c, hc, hconstant⟩ := h.declared type info hshape hafter
  exact ⟨c, hc, h.represents_of_constant hc hconstant⟩

/-- What is written above a class of the forest is a class of the forest, or `Reference`. -/
theorem parent_cases {above : TypeId} (hforest : IsForest classes) (hc : c ∈ classes)
    (hr : t.Represents c type) (habove : t.above? type = some above) :
    (c.superclass = none ∧ above = .reference) ∨
      ∃ parent ∈ classes, c.superclass = some parent.name ∧ t.Represents parent above := by
  obtain ⟨above', habove', hparent⟩ := hr.parent
  obtain rfl := Option.some.inj (habove.symm.trans habove')
  cases hsuper : c.superclass with
  | none =>
    rw [hsuper] at hparent
    exact Or.inl ⟨rfl, (Option.some.inj hparent).symm⟩
  | some name =>
    rw [hsuper] at hparent
    obtain ⟨parent, hmem, rfl⟩ := List.mem_map.1 (hforest.closed c hc name hsuper)
    exact Or.inr ⟨parent, hmem, rfl, h.represents_of_constant hmem hparent⟩

/-- The ancestors of a class of the forest are classes of the forest, up to the roots. -/
theorem ancestor_cases (hforest : IsForest classes) (hc : c ∈ classes) (hr : t.Represents c type)
    (hx : x ∈ t.ancestors type) : isRoot x = true ∨ ∃ c' ∈ classes, t.Represents c' x := by
  have hf := h.regular.founded
  have hk := hr.known
  induction hk using known_induction hf generalizing c with
  | step type hk ih =>
    rcases (mem_ancestors_iff hf h.overClasses hk).1 hx with rfl | ⟨above, habove, hx⟩
    · exact Or.inr ⟨c, hc, hr⟩
    rcases h.parent_cases hforest hc hr habove with ⟨-, rfl⟩ | ⟨parent, hparent, -, hr'⟩
    · exact Or.inl (isRoot_of_mem_ancestors hf h.overClasses h.regular.rootsOnTop
        (h.regular.known_root rfl) hx rfl)
    · exact ih above habove hparent hr' hx

/-- The concrete classes at or below a class of the forest are classes of the forest. -/
theorem represents_of_realizes (hr : t.Represents c type) (hx : t.Realizes type x) :
    ∃ c' ∈ classes, t.Represents c' x := by
  obtain ⟨info, hshape, -⟩ := hx.2
  have hk : t.Known x := known_of_shape_ne (by simp [hshape])
  have hle := le_of_mem_ancestors h.regular.founded hk (hx.1.mem_ancestors h.regular.founded)
  exact h.represents_of_shape hshape (hr.after.trans_le hle)

end Planted

/-! ## Methods of the forest -/

namespace Planted

section

variable (h : t.Planted classes) (hforest : IsForest classes) (hc : c ∈ classes)
  (hr : t.Represents c type)
include h hforest hc hr

/-- The methods `coco` of a class of the forest itself. -/
theorem method_of_mem_own (hid : id ∈ t.methods.own type "coco") :
    ∃ d, c.coco = some d ∧ t.method id = ⟨id, d.decl, type, .user, none⟩ := by
  obtain ⟨hslot, howner, hname⟩ := mem_own.1 hid
  obtain ⟨c', hc', d, type', hd, hconstant, hmethod⟩ := (h.methods id hslot).coco hname
  obtain rfl : type' = type := by
    rw [hmethod] at howner
    exact howner
  have hr' := h.represents_of_constant hc' hconstant
  obtain rfl := hforest.eq_of_name hc hc' (hr.name_eq hr')
  exact ⟨d, hd, hmethod⟩

/-- The first method `coco` that a class of the forest answers to is the one it has. -/
theorem exists_method :
    ∃ definer d owner id rest, Inherits classes c definer ∧ definer.coco = some d ∧
      t.constant? definer.name = some owner ∧ t.methodsNamed type "coco" = id :: rest ∧
      id ∈ t.methods.slots ∧ t.method id = ⟨id, d.decl, owner, .user, none⟩ := by
  have hf := h.regular.founded
  have hk := hr.known
  induction hk using known_induction hf generalizing c with
  | step type hk ih =>
    obtain ⟨above, habove, -⟩ := hr.parent
    obtain ⟨info, hshape, -⟩ := hr.shape
    obtain ⟨aboveInfo, haboveShape⟩ := h.overClasses type above habove
    have hnamed : t.methodsNamed type "coco"
        = t.methods.own type "coco" ++ t.methodsNamed above "coco" :=
      methodsNamed_of_above hf hshape (by simpa [above?, hshape] using habove) haboveShape
    cases hcoco : c.coco with
    | some d =>
      obtain ⟨id, hslot, hmethod⟩ := hr.method d hcoco
      have hown : id ∈ t.methods.own type "coco" := by
        rw [mem_own, hmethod]
        exact ⟨hslot, rfl, rfl⟩
      obtain ⟨first, rest, hfirst⟩ := List.exists_cons_of_ne_nil (List.ne_nil_of_mem hown)
      have hmem : first ∈ t.methods.own type "coco" := by simp [hfirst]
      obtain ⟨d', hd', hmethod'⟩ := h.method_of_mem_own hforest hc hr hmem
      rw [hfirst] at hnamed
      exact ⟨c, d', type, first, _, .own (by simp [hcoco]), hd', hr.constant, hnamed,
        (mem_own.1 hmem).1, hmethod'⟩
    | none =>
      have hown : t.methods.own type "coco" = [] := by
        apply List.eq_nil_iff_forall_not_mem.2
        intro id hid
        obtain ⟨d, hd, -⟩ := h.method_of_mem_own hforest hc hr hid
        simp [hcoco] at hd
      rw [hown, List.nil_append] at hnamed
      rcases h.parent_cases hforest hc hr habove with ⟨hsuper, -⟩ | ⟨parent, hparent, hsuper, hr'⟩
      · have := hforest.defined c hc hsuper
        simp [hcoco] at this
      · obtain ⟨definer, d, owner, id, rest, hinherits, hd, howner, hrest⟩ :=
          ih above habove hparent hr'
        rw [← hnamed] at hrest
        exact ⟨definer, d, owner, id, rest, .above hcoco hparent hsuper hinherits, hd, howner,
          hrest⟩

end

/-- No class has an `initialize`. -/
theorem methodsNamed_initialize (h : t.Planted classes) (owner : TypeId) :
    t.methodsNamed owner "initialize" = [] := by
  apply List.eq_nil_iff_forall_not_mem.2
  intro id hid
  obtain ⟨type, hown⟩ := own_of_mem_methodsNamed hid
  exact (h.methods id (mem_own.1 hown).1).init (mem_own.1 hown).2.2

/-- The only `new` of a class is its generated constructor. -/
theorem methodsNamed_new {metaType : TypeId} (h : t.Planted classes)
    (hfind : t.find? (.metaclass type) = some metaType) :
    t.methodsNamed metaType "new" = t.methods.own metaType "new" := by
  have hshape := shape_of_find? hfind
  have hchain : ∃ rest, t.methodChain metaType = metaType :: rest := by
    simp only [methodChain, hshape]
    rw [ancestors, List.filterMap_cons, hfind]
    exact ⟨_, rfl⟩
  obtain ⟨rest, hrest⟩ := hchain
  have hinherited : t.inheritedByMeta "new" rest = [] := by
    apply List.eq_nil_iff_forall_not_mem.2
    intro id hid
    obtain ⟨hmem, horigin⟩ := List.mem_filter.1 hid
    obtain ⟨owner, -, hown⟩ := List.mem_flatMap.1 hmem
    obtain ⟨owner', hmethod⟩ := (h.methods id (mem_own.1 hown).1).new (mem_own.1 hown).2.2
    simp [hmethod] at horigin
  simp [methodsNamed, hrest, isMetaclass, hshape, hinherited]

end Planted

/-! ## Calls without arguments -/

/-- Without arguments there is the empty tuple to cover, and every method covers it. -/
theorem matchMethod_noArgs (id : MethodId) (owner : TypeId) (t : TypeTable) :
    matchMethod id owner [] t = (some ⟨id, owner, [], .empty, .direct⟩, t) := by
  rw [matchMethod_eq]
  cases (t.method id).decl.params <;> rfl

/-- A call without arguments finds the first method that takes none. -/
theorem lookupMatches_of_fitting {rest : List MethodId} {hasBlock : Bool}
    (h : t.fittingMethods owner name 0 hasBlock = id :: rest) :
    ∃ cover : Cover, cover.isComplete = true ∧
      lookupMatches owner name [] hasBlock t
        = (⟨[⟨id, owner, [], .empty, .direct⟩], some cover, owner⟩, t) := by
  have hcomplete : (Cover.mk [[]] [[]]).isComplete = true := rfl
  refine ⟨⟨[[]], [[]]⟩, hcomplete, ?_⟩
  have hadd : (Cover.ofArgs t []).add t [] = (⟨[[]], [[]]⟩, true) := rfl
  have hcollect : collectMatches owner [] (id :: rest) (.ofArgs t []) t
      = (([⟨id, owner, [], .empty, .direct⟩], ⟨[[]], [[]]⟩), t) := by
    have hopen : (Cover.ofArgs t []).isComplete = false := rfl
    rw [collectMatches_cons, hopen, if_neg (by simp), matchMethod_noArgs]
    simp only [hadd, collectMatches_of_isComplete hcomplete, if_true]
  rw [lookupMatches, run_get_bind, List.length_nil, h, run_bind, hcollect]
  rfl

theorem lookupMatches_of_not_fitting {hasBlock : Bool}
    (h : t.fittingMethods owner name 0 hasBlock = []) :
    lookupMatches owner name [] hasBlock t = (⟨[], some (.ofArgs t []), owner⟩, t) := by
  rw [lookupMatches, run_get_bind, List.length_nil, h]
  rfl

end Callsite.TypeTable
