import Callsite.Proofs.Forest.Tables

/-!
# Growing a forest

Joining types keeps a forest as it is, and so does writing a constructor.  Declaring a class that
fits after the others and defining its `coco` adds it to the forest.
-/

namespace Callsite

open Forest MethodTable

namespace TypeTable

variable {t t' : TypeTable} {classes : List ClassSource} {c c' : ClassSource}
  {type owner x : TypeId}
variable {id : MethodId} {name : String} {decl : MethodDecl} {origin : Origin}

/-! ## Slots of methods -/

theorem mem_slots_register (h : id ∈ (register owner decl origin t).2.methods.slots) :
    id = ⟨t.methods.size⟩ ∨ id ∈ t.methods.slots :=
  mem_fillSlot h

/-- A new method takes only the slot of one with the same owner and name. -/
theorem mem_slots_register_of_mem (h : id ∈ t.methods.slots)
    (hother : (t.method id).owner ≠ owner ∨ (t.method id).name ≠ decl.name) :
    id ∈ (register owner decl origin t).2.methods.slots := by
  apply mem_fillSlot_of_mem h
  rcases hother with hother | hother
  · simp [replacedBy, show (t.methods.get id).owner ≠ owner from hother]
  · simp [replacedBy, show (t.methods.get id).name ≠ decl.name from hother]

/-! ## The standard table -/

theorem standard_facts :
    standard.OverClasses ∧ standard.size = 14 ∧ standard.shape .program = .program ∧
      (standard.classInfo? .reference).isSome = true ∧
      ∀ id ∈ standard.methods.slots, (standard.method id).name ∉ ["coco", "new", "initialize"] := by
  decide +kernel

theorem standard_planted : standard.Planted [] := by
  obtain ⟨hoverClasses, hsize, -, -, hnames⟩ := standard_facts
  constructor
  case regular => exact standard_regular
  case overClasses => exact hoverClasses
  case grown => exact .refl standard
  case constants => exact fun _ _ => rfl
  case represents => simp
  case declared =>
    intro type info hshape hafter
    have hk : standard.Known type := known_of_shape_ne (by simp [hshape])
    have hlt : type.index < 14 := hsize ▸ hk
    have hafter : 13 < type.index := hafter
    omega
  case methods =>
    intro id hid
    have hname := hnames id hid
    simp only [List.mem_cons, List.not_mem_nil, or_false, not_or] at hname
    exact ⟨fun h => absurd h hname.1, fun h => absurd h hname.2.1, hname.2.2⟩

/-! ## Joining types -/

theorem Represents.widens (h : t.Represents c type) (hw : t.Widens t') (hf : t.Founded) :
    t'.Represents c type := by
  refine h.later hw.grows ?_ hf.slots ?_
  · intro name type htype
    rw [constant?, hw.constants_eq]
    exact htype
  · intro d _ id hid _
    rwa [hw.methods_eq]

namespace Planted

/-- A later table with the same methods and perhaps more classes, none of which has a `coco`. -/
theorem later {more : List ClassSource} (h : t.Planted classes) (hg : t.Grows t')
    (hregular : t'.Regular) (hoverClasses : t'.OverClasses) (hmethods : t'.methods = t.methods)
    (hkept : ∀ name type, t.constant? name = some type → t'.constant? name = some type)
    (hother : ∀ name, name ∉ more.map ClassSource.name → t'.constant? name = t.constant? name)
    (hmore : ∀ c ∈ more, ∃ type, t'.Represents c type)
    (hclasses : ∀ type info, t'.shape type = .cls info → (∃ info', t.shape type = .cls info') ∨
      ∃ c ∈ more, t'.constant? c.name = some type) : t'.Planted (classes ++ more) := by
  have hmethod : ∀ id, t'.method id = t.method id := by
    intro id
    rw [method, hmethods, method]
  have hold : ∀ {c'}, c' ∈ classes → c' ∈ classes ++ more := fun h => List.mem_append_left _ h
  constructor
  case regular => exact hregular
  case overClasses => exact hoverClasses
  case grown => exact h.grown.trans hg
  case constants =>
    intro name hname
    rw [List.map_append, List.mem_append, not_or] at hname
    rw [hother name hname.2]
    exact h.constants name hname.1
  case represents =>
    intro c' hc'
    rcases List.mem_append.1 hc' with hmem | hnew
    · obtain ⟨type, hr'⟩ := h.represents c' hmem
      refine ⟨type, hr'.later hg hkept h.regular.founded.slots fun _ _ id hid _ => ?_⟩
      rwa [hmethods]
    · exact hmore c' hnew
  case declared =>
    intro type info hshape hafter
    rcases hclasses type info hshape with ⟨info', hshape'⟩ | ⟨c', hnew, hconstant⟩
    · obtain ⟨c', hc', hconstant⟩ := h.declared type info' hshape' hafter
      exact ⟨c', hold hc', hkept _ _ hconstant⟩
    · exact ⟨c', List.mem_append_right _ hnew, hconstant⟩
  case methods =>
    intro id hid
    rw [hmethods] at hid
    rw [hmethod]
    refine { h.methods id hid with coco := fun hname => ?_ }
    obtain ⟨c', hc', d, type, hd, hconstant, heq⟩ := (h.methods id hid).coco hname
    exact ⟨c', hold hc', d, type, hd, hkept _ _ hconstant, heq⟩

theorem widens (h : t.Planted classes) (hw : t.Widens t') (hregular : t'.Regular) :
    t'.Planted classes := by
  have hconstant : ∀ name, t'.constant? name = t.constant? name := by
    intro name
    rw [constant?, hw.constants_eq, constant?]
  have hlater : t'.Planted (classes ++ []) :=
    h.later hw.grows hregular (hw.overClasses h.overClasses) hw.methods_eq
      (fun name _ => (hconstant name).trans) (fun name _ => hconstant name) (by simp)
      fun _ info hshape => Or.inl ⟨info, (hw.shape_cls_iff info).1 hshape⟩
  rwa [List.append_nil] at hlater

/-! ## Constructors -/

/-- Writing the constructor of a class adds no class and no `coco`. -/
theorem register_new (h : t.Planted classes) (metaType : TypeId) :
    (register metaType allocatorDecl .constructor t).2.Planted classes := by
  have hextends := (register_builds (t := t) metaType allocatorDecl .constructor).1
  have hslots := h.regular.founded.slots
  have hnew := method_register_self metaType allocatorDecl .constructor t
  constructor
  case regular => exact h.regular.register _ _ _
  case overClasses => exact h.overClasses
  case grown => exact h.grown.trans hextends.grows
  case constants => exact h.constants
  case represents =>
    intro c hc
    obtain ⟨type, hr⟩ := h.represents c hc
    refine ⟨type, hr.later hextends.grows (fun _ _ => id) hslots fun d _ id hid hmethod => ?_⟩
    apply mem_slots_register_of_mem hid
    right
    rw [hmethod]
    show "coco" ≠ "new"
    decide
  case declared => exact h.declared
  case methods =>
    intro id hid
    rcases mem_slots_register hid with rfl | hold
    · rw [hnew]
      exact ⟨fun hname => absurd hname (show "new" ≠ "coco" by decide), fun _ => ⟨metaType, rfl⟩,
        show "new" ≠ "initialize" by decide⟩
    · rw [method_register_of_lt (hslots id hold)]
      exact h.methods id hold

/-! ## Definitions of `coco` -/

theorem yields_literal (d : Definition) : d.decl.yields = none := by
  cases hresult : d.result <;>
    simp [Definition.decl, hresult, Literal.form, MethodDecl.yields, Expr.maxYield,
      Expr.yieldArities, Form.yieldArities]

/-- Defining the `coco` of the last class. -/
theorem define {d : Definition} (h : t.Planted (classes ++ [c.bare]))
    (hr : t.Represents c.bare type) (hnew : c.name ∉ classes.map ClassSource.name)
    (hd : c.coco = some d) : (register type d.decl .user t).2.Planted (classes ++ [c]) := by
  have hextends := (register_builds (t := t) type d.decl .user).1
  have hslots := h.regular.founded.slots
  have hself := method_register_self type d.decl .user t
  rw [yields_literal] at hself
  have hnames :
      (classes ++ [c]).map ClassSource.name = (classes ++ [c.bare]).map ClassSource.name := by
    simp [ClassSource.bare]
  have hlast : c ∈ classes ++ [c] := by simp
  constructor
  case regular => exact h.regular.register _ _ _
  case overClasses => exact h.overClasses
  case grown => exact h.grown.trans hextends.grows
  case constants =>
    rw [hnames]
    exact h.constants
  case represents =>
    intro c' hc'
    rcases List.mem_append.1 hc' with hold | hlast
    · obtain ⟨type', hr'⟩ := h.represents c' (List.mem_append_left _ hold)
      refine ⟨type', hr'.later hextends.grows (fun _ _ => id) hslots fun _ _ id hid hmethod => ?_⟩
      apply mem_slots_register_of_mem hid
      left
      rw [hmethod]
      rintro rfl
      have hname : c'.name = c.bare.name := hr'.name_eq hr
      exact hnew (List.mem_map.2 ⟨c', hold, hname⟩)
    · obtain rfl := List.mem_singleton.1 hlast
      have hbare := hr.later hextends.grows (fun _ _ => id) hslots (by simp [ClassSource.bare])
      refine ⟨type, hbare.constant, hbare.after, hbare.shape, hbare.parent, hbare.metaclass, ?_⟩
      intro d' hd'
      obtain rfl := Option.some.inj (hd.symm.trans hd')
      exact ⟨_, self_mem_fillSlot _ _ _, hself⟩
  case declared =>
    intro type' info hshape hafter
    obtain ⟨c', hc', hconstant⟩ := h.declared type' info hshape hafter
    rcases List.mem_append.1 hc' with hold | hlast'
    · exact ⟨c', List.mem_append_left _ hold, hconstant⟩
    · obtain rfl := List.mem_singleton.1 hlast'
      exact ⟨c, hlast, hconstant⟩
  case methods =>
    intro id hid
    rcases mem_slots_register hid with rfl | hold
    · rw [hself]
      exact ⟨fun _ => ⟨c, hlast, d, type, hd, hr.constant, rfl⟩,
        fun hname => absurd hname (show "coco" ≠ "new" by decide),
        show "coco" ≠ "initialize" by decide⟩
    · rw [method_register_of_lt (hslots id hold)]
      refine { h.methods id hold with coco := fun hname => ?_ }
      obtain ⟨c', hc', d', type', hd', hconstant, hmethod⟩ := (h.methods id hold).coco hname
      rcases List.mem_append.1 hc' with hmem | hlast'
      · exact ⟨c', List.mem_append_left _ hmem, d', type', hd', hconstant, hmethod⟩
      · rw [List.mem_singleton.1 hlast'] at hd'
        simp [ClassSource.bare] at hd'

end Planted

/-! ## Declarations of classes -/

theorem Planted.reference (h : t.Planted classes) : ∃ info, t.shape .reference = .cls info := by
  obtain ⟨-, -, -, hinfo, -⟩ := standard_facts
  obtain ⟨info, hinfo⟩ := Option.isSome_iff_exists.1 hinfo
  exact h.grown.exists_cls ⟨info, classInfo?_eq_some_iff.1 hinfo⟩

theorem Planted.program (h : t.Planted classes) : t.shape .program = .program := by
  obtain ⟨-, -, hshape, -⟩ := standard_facts
  exact h.grown.shape_fixed hshape (by simp) (by simp) (by simp)

/-- Superclasses stay classes in a later table if those of its new types are. -/
theorem OverClasses.grow (h : t.OverClasses) (hg : t.Grows t')
    (hnew : ∀ type above, ¬ t.Known type → t'.above? type = some above →
      ∃ info, t'.shape above = .cls info) : t'.OverClasses := by
  intro type above habove
  by_cases hk : t.Known type
  · rw [hg.above?_eq hk] at habove
    exact hg.exists_cls (h type above habove)
  · exact hnew type above hk habove

theorem intern_constants (shape : Shape) (t : TypeTable) :
    (intern shape t).2.constants = t.constants := by
  rw [intern]
  split <;> rfl

theorem intern_methods (shape : Shape) (t : TypeTable) :
    (intern shape t).2.methods = t.methods := by
  rw [intern]
  split <;> rfl

/-- The only shape that interning may add is the given one. -/
theorem intern_shape_new {shape : Shape} (hk : (intern shape t).2.Known type)
    (hnew : ¬ t.Known type) : (intern shape t).2.shape type = shape := by
  cases hfind : t.find? shape with
  | some found =>
    rw [intern_of_find? hfind] at hk
    exact absurd hk hnew
  | none =>
    rw [intern_of_find?_eq_none hfind] at hk ⊢
    obtain rfl := ((known_push_iff shape).1 hk).resolve_left hnew
    exact push_shape_new shape t

/-- The metaclass of a class is interned. -/
theorem metaclass_of_cls {info : ClassInfo} (h : t.shape type = .cls info) :
    TypeTable.metaclass type t = intern (.metaclass type) t := by
  rw [TypeTable.metaclass, run_get_bind]
  simp only [h]
  rw [metaclassOfPart, run_get_bind]
  simp only [h]

/-- A table with one more class and no other change in what stands below a class. -/
structure Gains (t t' : TypeTable) (cls : TypeId) : Prop where
  grows : t.Grows t'
  fresh : ¬ t.Known cls
  constants : ∀ name type, t.constant? name = some type → t'.constant? name = some type
  realizes : ∀ base x, t'.Realizes base x → t.Realizes base x ∨ x = cls

theorem Gains.register {cls : TypeId} (h : t.Gains t' cls) (owner : TypeId) (decl : MethodDecl)
    (origin : Origin) : t.Gains (register owner decl origin t').2 cls := by
  have hextends := (register_builds (t := t') owner decl origin).1
  exact ⟨h.grows.trans hextends.grows, h.fresh, h.constants, fun base x hx =>
    h.realizes base x (hextends.realizes_iff.1 hx)⟩

/-- What is written above a class that fits after the others is a class. -/
theorem Planted.parent_of_fits (h : t.Planted classes) (hc : c.FitsAfter classes) :
    ∃ parent info, (c.superclass.bind t.constant?).getD .reference = parent ∧
      t.shape parent = .cls info ∧
      c.superclass.elim (some .reference) t.constant? = some parent := by
  cases hsuper : c.superclass with
  | none =>
    obtain ⟨info, hinfo⟩ := h.reference
    exact ⟨.reference, info, rfl, hinfo, rfl⟩
  | some name =>
    obtain ⟨parent, hmem, rfl⟩ := List.mem_map.1 (hc.superclass name hsuper)
    obtain ⟨type, hr⟩ := h.represents parent hmem
    obtain ⟨info, hinfo, -⟩ := hr.shape
    exact ⟨type, info, by simp [hr.constant], hinfo, hr.constant⟩

/-- Declaring a class that fits after the others, without its `coco`. -/
theorem Planted.declare (h : t.Planted classes) (hc : c.FitsAfter classes) :
    ∃ t1 metaType t2,
      declareClass c.name (c.superclass.bind t.constant?) false [] t = ((⟨t.size⟩, true), t1) ∧
      TypeTable.metaclass ⟨t.size⟩ t1 = (metaType, t2) ∧ t2.Planted (classes ++ [c.bare]) ∧
      t2.Represents c.bare ⟨t.size⟩ ∧ t.Gains t2 ⟨t.size⟩ := by
  have hf := h.regular.founded
  have hfresh : t.constant? c.name = none := (h.constants c.name hc.new).trans hc.fresh
  obtain ⟨parent, parentInfo, hgetD, hparentShape, hparent⟩ := h.parent_of_fits hc
  have hkparent : t.Known parent := known_of_shape_ne (by simp [hparentShape])
  let t1 := (newClass c.name (some parent) false [] t).2
  let t2 := (intern (.metaclass ⟨t.size⟩) t1).2
  have hdeclares : Declares t t1 ⟨t.size⟩ parent := (newClass_declares c.name false [] hkparent).2
  have hshape : t1.shape ⟨t.size⟩ = .cls ⟨c.name, some parent, false, [], []⟩ :=
    newClass_shape c.name false [] hkparent
  have hk1 : t1.Known ⟨t.size⟩ := known_of_shape_ne (by simp [hshape])
  have hintern : Builds (intern (.metaclass ⟨t.size⟩)) t1 fun type t' =>
      t'.find? (.metaclass ⟨t.size⟩) = some type := intern_builds (by simp) rfl hk1
  have hextends : t1.Extends t2 := hintern.1
  have hgrows : t.Grows t2 := hdeclares.grows.trans hextends.grows
  have hmethods : t2.methods = t.methods := intern_methods _ t1
  have hconstants : t2.constants = (c.name, ⟨t.size⟩) :: t.constants := intern_constants _ t1
  have hself : t2.constant? c.name = some ⟨t.size⟩ := by
    rw [constant?, hconstants]
    simp
  have hother : ∀ name, name ≠ c.name → t2.constant? name = t.constant? name := by
    intro name hne
    rw [constant?, hconstants, List.lookup_cons, beq_false_of_ne hne, constant?]
  have hkept : ∀ name type, t.constant? name = some type → t2.constant? name = some type := by
    intro name type htype
    rw [hother name fun heq => by simp [heq, hfresh] at htype]
    exact htype
  have hregular : t2.Regular := (h.regular.declares hdeclares).intern (by simp) rfl hk1 (by simp)
  have hshape2 : t2.shape ⟨t.size⟩ = .cls ⟨c.name, some parent, false, [], []⟩ :=
    (hextends.shape_cls_iff _).2 hshape
  have hrepresents : t2.Represents c.bare ⟨t.size⟩ := by
    refine ⟨hself, hf.standard, ⟨_, hshape2, rfl, rfl, rfl⟩, ⟨parent, ?_, ?_⟩,
      ⟨_, hintern.2⟩, by simp [ClassSource.bare]⟩
    · rw [above?, hshape2]
    · cases hsuper : c.superclass with
      | none =>
        simpa [ClassSource.bare, hsuper] using hparent
      | some name =>
        rw [hsuper] at hparent
        simpa [ClassSource.bare, hsuper] using hkept name parent hparent
  refine ⟨t1, (intern (.metaclass ⟨t.size⟩) t1).1, t2, ?_, metaclass_of_cls hshape, ?_,
    hrepresents, ?_⟩
  · have hdeclared : t.declaredClass? c.name = none := by rw [declaredClass?, hfresh]; rfl
    rw [declareClass, run_get_bind, hdeclared, hgetD]
    rfl
  · refine h.later hgrows hregular ?_ hmethods hkept (fun name hname => hother name ?_)
      (fun c' hc' => ⟨_, List.mem_singleton.1 hc' ▸ hrepresents⟩) fun type info hinfo => ?_
    · refine OverClasses.grow h.overClasses hgrows fun type above hnew habove => ?_
      by_cases hk : t1.Known type
      · obtain rfl := (hdeclares.known_iff.1 hk).resolve_left hnew
        rw [above?, hshape2] at habove
        cases habove
        exact hgrows.exists_cls ⟨_, hparentShape⟩
      · have hk2 : t2.Known type := by
          refine known_of_shape_ne fun hnone => ?_
          simp [above?, hnone] at habove
        have hmeta : t2.shape type = .metaclass ⟨t.size⟩ := intern_shape_new hk2 hk
        simp [above?, hmeta] at habove
    · exact fun heq => hname (by simp [heq, ClassSource.bare])
    · have hinfo1 := hextends.classes type info hinfo
      have hk1 : t1.Known type := known_of_shape_ne (by simp [hinfo1])
      rcases hdeclares.known_iff.1 hk1 with hk | rfl
      · have hold := hdeclares.shape_grows hk
        rw [hinfo1] at hold
        generalize t.shape type = before at hold
        cases hold with
        | same | cls => exact Or.inl ⟨_, rfl⟩
      · exact Or.inr ⟨c.bare, by simp, hself⟩
  · exact ⟨hgrows, Nat.lt_irrefl _, hkept, fun base x hx =>
      hdeclares.realizes_cases hf (hextends.realizes_iff.1 hx)⟩

/-! ## Unions of classes -/

/-- A type made of classes of a forest and of hierarchies over them. -/
structure Spans (t : TypeTable) (classes : List ClassSource) (type : TypeId) : Prop where
  known : t.Known type
  parts_ne : t.parts type ≠ []
  parts : ∀ part ∈ t.parts type, (∃ c ∈ classes, t.Represents c part) ∨
    ∃ base, t.shape part = .hierarchy base ∧ ∃ c ∈ classes, t.Represents c base

namespace Spans

variable (h : t.Spans classes type)
include h

theorem later {more : List ClassSource} (hg : t.Grows t')
    (hclasses : ∀ c ∈ classes, ∀ type, t.Represents c type →
      ∃ c' ∈ more, t'.Represents c' type) : t'.Spans more type where
  known := hg.known h.known
  parts_ne := by
    rw [hg.parts_eq h.known]
    exact h.parts_ne
  parts := by
    intro part hpart
    rw [hg.parts_eq h.known] at hpart
    rcases h.parts part hpart with ⟨c, hc, hr⟩ | ⟨base, hshape, c, hc, hr⟩
    · exact Or.inl (hclasses c hc part hr)
    · exact Or.inr ⟨base, hg.shape_hierarchy hshape, hclasses c hc base hr⟩

theorem widens (hw : t.Widens t') (hf : t.Founded) : t'.Spans classes type :=
  h.later hw.grows fun c hc _ hr => ⟨c, hc, hr.widens hw hf⟩

theorem ne_noReturn : t.shape type ≠ .noReturn :=
  fun hshape => h.parts_ne (parts_of_noReturn hshape)

theorem ne_library (info : LibraryInfo) : t.shape type ≠ .library info := by
  intro hshape
  have hself : type ∈ t.parts type := by simp [TypeTable.parts, hshape]
  rcases h.parts type hself with ⟨c, -, hr⟩ | ⟨base, hbase, -⟩
  · obtain ⟨clsInfo, hcls, -⟩ := hr.shape
    simp [hshape] at hcls
  · simp [hshape] at hbase

theorem members_eq : t.members type = t.parts type := by
  have hne := h.ne_noReturn
  rw [members, TypeTable.parts]
  cases hshape : t.shape type with
  | noReturn => exact absurd hshape hne
  | _ => rfl

theorem mem_concreteTypes (hf : t.Founded) :
    x ∈ t.concreteTypes type ↔ ∃ part ∈ t.parts type, t.Admits part x := by
  rw [TypeTable.mem_concreteTypes hf, ← h.members_eq]
  rfl

/-- A type over a forest has values. -/
theorem exists_concrete (hf : t.Founded) : ∃ x, x ∈ t.concreteTypes type := by
  obtain ⟨part, rest, hparts⟩ := List.exists_cons_of_ne_nil h.parts_ne
  have hpart : part ∈ t.parts type := by simp [hparts]
  rcases h.parts part hpart with ⟨c, -, hr⟩ | ⟨base, hshape, c, -, hr⟩
  · obtain ⟨info, hinfo, -⟩ := hr.shape
    exact ⟨part, (h.mem_concreteTypes hf).2 ⟨part, hpart, by rw [Admits, hinfo]⟩⟩
  · refine ⟨base, (h.mem_concreteTypes hf).2 ⟨part, hpart, ?_⟩⟩
    rw [Admits, hshape]
    exact ⟨.refl, hr.isConcrete⟩

end Spans

/-- The union of classes of a forest. -/
theorem Planted.spans_unionOf {types : List TypeId} (h : t.Planted classes)
    (hforest : IsForest classes) (hne : types ≠ [])
    (htypes : ∀ type ∈ types, ∃ c ∈ classes, t.Represents c type) :
    (unionOf types t).2.Spans classes (unionOf types t).1 := by
  have hknown : ∀ type ∈ types, t.Known type := by
    intro type htype
    obtain ⟨c, -, hr⟩ := htypes type htype
    exact hr.known
  have hwidens := unionOf_widens types t
  have hregular := h.regular.unionOf hknown
  have h' := h.widens hwidens hregular
  have hlater : ∀ type ∈ types, ∃ c ∈ classes, (unionOf types t).2.Represents c type := by
    intro type htype
    obtain ⟨c, hc, hr⟩ := htypes type htype
    exact ⟨c, hc, hr.widens hwidens h.regular.founded⟩
  have hjoin := h.regular.unionOf_isJoin hknown (.refl _) hregular h'.overClasses
  obtain ⟨members, result, hnodup, hmerges, hmembers, hparts⟩ :=
    h.regular.merges_parts_unionOf hknown (.refl _) hregular
  -- The parts at the start are the classes themselves.
  have hstart : ∀ member ∈ members, ∃ c ∈ classes, (unionOf types t).2.Represents c member := by
    intro member hmember
    obtain ⟨type, htype, hpart⟩ := (hmembers member).1 hmember
    obtain ⟨c, hc, hr⟩ := htypes type htype
    rw [hr.parts, List.mem_singleton] at hpart
    rw [hpart]
    exact hlater type htype
  refine ⟨hjoin.known, ?_, fun part hpart => ?_⟩
  · intro hnone
    obtain ⟨type, rest, rfl⟩ := List.exists_cons_of_ne_nil hne
    obtain ⟨c, hc, hr⟩ := hlater type List.mem_cons_self
    obtain ⟨whole, hwhole, -⟩ :=
      hjoin.absorbs type List.mem_cons_self type (by rw [hr.parts]; exact List.mem_singleton_self _)
    rw [hnone] at hwhole
    cases hwhole
  · have hknownMembers : ∀ member ∈ members, (unionOf types t).2.Known member := by
      intro member hmember
      obtain ⟨c, -, hr⟩ := hstart member hmember
      exact hr.known
    have hcases := hmerges.mem_or_mergedFrom hregular h'.overClasses hknownMembers
      (.of_nodup hnodup) (fun _ => Or.inl) ((hparts part).1 hpart)
    rcases hcases with hmem | ⟨base, group, hshape, hroot, hgroup, ⟨a, ha, -⟩, hlowest⟩
    · exact Or.inl (hstart part hmem)
    · obtain ⟨c, hc, hr⟩ := hstart a (hgroup a ha)
      obtain ⟨cls, hcls, habove⟩ := hlowest.shared a ha
      obtain rfl := Option.some.inj (hr.mergeClass?.symm.trans hcls)
      rcases h'.ancestor_cases hforest hc hr habove with hbase | hbase
      · simp [hroot] at hbase
      · exact Or.inr ⟨base, hshape, hbase⟩

end TypeTable

end Callsite
