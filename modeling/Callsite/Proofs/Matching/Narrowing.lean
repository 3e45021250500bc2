import Callsite.Proofs.Types.Concrete
import Callsite.Proofs.Types.Matching

/-!
# Narrowing to a class

What narrowing to a class keeps of a type are exactly the concrete types that descend
from the class.  Unions may widen when their members merge, but members that all
descend from a class only merge into hierarchies below it.
-/

namespace Callsite

/-- The shapes of types that are their own only concrete type. -/
def Shape.isExact : Shape → Bool
  | .hierarchy _ | .hierarchyMetaclass _ | .union _ | .noReturn => false
  | _ => true

namespace TypeTable

variable {t t' t'' : TypeTable} {info : ClassInfo} {types members parts : List TypeId}
variable {type target cls base part member arg kept c : TypeId}

/-! ## Arguments -/

/-- A type whose values a call can pass: it is not `NoReturn`, and none of its members is an
abstract class itself. -/
structure IsArgument (t : TypeTable) (type : TypeId) : Prop where
  known : t.Known type
  ne_noReturn : type ≠ .noReturn
  not_abstract : ∀ member ∈ t.spread type, t.isAbstract member = false

theorem concreteTypes_of_isExact (h : (t.shape c).isExact = true) : t.concreteTypes c = [c] := by
  rw [concreteTypes, addConcrete]
  cases hshape : t.shape c with
  | hierarchy | hierarchyMetaclass | union | noReturn => simp [hshape, Shape.isExact] at h
  | _ => simp [addNew]

theorem known_of_isExact (h : (t.shape c).isExact = true) : t.Known c :=
  known_of_shape_ne fun hshape => by simp [hshape, Shape.isExact] at h

theorem Realizes.isExact (h : t.Realizes base c) : (t.shape c).isExact = true := by
  obtain ⟨-, info, hshape, -⟩ := h
  simp [hshape, Shape.isExact]

theorem Admits.isExact (h : t.Admits part c) (hunion : ∀ members, t.shape part ≠ .union members)
    (hnoReturn : t.shape part ≠ .noReturn) : (t.shape c).isExact = true := by
  rw [Admits] at h
  split at h
  next => exact h.isExact
  next =>
    obtain ⟨cls, -, hfind⟩ := h
    simp [shape_of_find? hfind, Shape.isExact]
  next hhierarchy hmeta =>
    subst h
    cases hshape : t.shape c with
    | hierarchy base => exact absurd hshape (hhierarchy base)
    | hierarchyMetaclass base => exact absurd hshape (hmeta base)
    | union members => exact absurd hshape (hunion members)
    | noReturn => exact absurd hshape hnoReturn
    | _ => rfl

/-- A type that can be a member of an argument: neither `NoReturn` nor a union. -/
def IsPart (t : TypeTable) (part : TypeId) : Prop :=
  t.Known part ∧ t.shape part ≠ .noReturn ∧ ∀ members, t.shape part ≠ .union members

theorem Widens.isPart (h : t.Widens t') (hp : t.IsPart part) : t'.IsPart part := by
  rw [IsPart, h.shape_eq part hp.1]
  exact ⟨h.known hp.1, hp.2⟩

section

variable (h : t.IsArgument type) (hr : t.Regular)
include h hr

theorem IsArgument.of_mem_spread (hpart : part ∈ t.spread type) : t.IsPart part := by
  rw [spread] at hpart
  split at hpart
  next members hshape =>
    have hnormal := hr.normal type members hshape
    have hk := hr.founded.known_of_mem_union hshape part hpart
    refine ⟨hk, fun hshape => hnormal.ne_noReturn part hpart (hr.eq_noReturn hk hshape), ?_⟩
    exact hnormal.ne_union part hpart
  next hunion =>
    obtain rfl := List.mem_singleton.1 hpart
    exact ⟨h.known, fun hshape => h.ne_noReturn (hr.eq_noReturn h.known hshape), hunion⟩

theorem IsArgument.isExact (hc : c ∈ t.concreteTypes type) : (t.shape c).isExact = true := by
  obtain ⟨part, hpart, hadmits⟩ := (mem_concreteTypes hr.founded).1 hc
  obtain ⟨-, hnoReturn, hunion⟩ := h.of_mem_spread hr hpart
  exact hadmits.isExact hunion hnoReturn

/-- The concrete types of an argument are not abstract. -/
theorem IsArgument.isAbstract_eq_false (hc : c ∈ t.concreteTypes type) :
    t.isAbstract c = false := by
  obtain ⟨part, hpart, hadmits⟩ := (mem_concreteTypes hr.founded).1 hc
  rw [Admits] at hadmits
  split at hadmits
  next =>
    obtain ⟨-, info, hshape, habstract⟩ := hadmits
    rw [isAbstract, hshape]
    exact habstract
  next =>
    obtain ⟨cls, -, hfind⟩ := hadmits
    rw [isAbstract, shape_of_find? hfind]
  next =>
    subst hadmits
    exact h.not_abstract c hpart

end

theorem Widens.isArgument (h : t.Widens t') (ha : t.IsArgument type) : t'.IsArgument type where
  known := h.known ha.known
  ne_noReturn := ha.ne_noReturn
  not_abstract := by
    intro member hmember
    rw [h.spread_eq ha.known] at hmember
    rw [h.isAbstract_eq]
    exact ha.not_abstract member hmember

/-! ## Parts below a class -/

/-- The type that stands in the class tree for a type: the base of a hierarchy, or itself. -/
def treeClass (t : TypeTable) (type : TypeId) : TypeId :=
  match t.shape type with
  | .hierarchy base => base
  | _ => type

theorem treeClass_of_hierarchy (h : t.shape type = .hierarchy base) : t.treeClass type = base := by
  rw [treeClass, h]

theorem treeClass_of_plain (h : ∀ base, t.shape type ≠ .hierarchy base) :
    t.treeClass type = type := by
  rw [treeClass]
  split
  next base hshape => exact absurd hshape (h base)
  next => rfl

theorem treeClass_of_mergeClass? (h : t.mergeClass? type = some c) : t.treeClass type = c := by
  rw [mergeClass?] at h
  rw [treeClass]
  split at h
  next info hshape =>
    rw [hshape]
    split at h
    · exact Option.some.inj h
    · simp at h
  next base hshape =>
    rw [hshape]
    exact Option.some.inj h
  next => simp at h

/-- Every value of the type belongs to the class. -/
def LiesUnder (t : TypeTable) (target type : TypeId) : Prop :=
  target ∈ t.ancestors (t.treeClass type)

theorem Widens.liesUnder_iff (h : t.Widens t') (hf : t.Founded) (hk : t.Known type) :
    t'.LiesUnder target type ↔ t.LiesUnder target type := by
  have htree : t'.treeClass type = t.treeClass type := by
    rw [treeClass, treeClass, h.shape_eq type hk]
  have hktree : t.Known (t.treeClass type) := by
    rw [treeClass]
    split
    next base hshape => exact hf.known_of_hierarchy hshape
    next => exact hk
  rw [LiesUnder, LiesUnder, htree, h.grows.ancestors_eq hf hktree]

theorem isClass_cases (h : t.isClass type = true) :
    (∃ info, t.shape type = .cls info) ∨ ∃ generic args, t.shape type = .applied generic args := by
  rw [isClass] at h
  split at h
  next info hshape => exact Or.inl ⟨info, hshape⟩
  next generic args hshape => exact Or.inr ⟨generic, args, hshape⟩
  next => simp at h

theorem isClass_of_shape (h : t.shape type = .cls info) : t.isClass type = true := by
  rw [isClass, h]

theorem known_of_isClass (h : t.isClass type = true) : t.Known type :=
  known_of_shape_ne fun hshape => by simp [isClass, hshape] at h

theorem targetClass?_of_isClass (h : t.isClass target = true) :
    t.targetClass? target = some target := by
  rcases isClass_cases h with ⟨info, hshape⟩ | ⟨generic, args, hshape⟩
  · rw [targetClass?, hshape]
  · rw [targetClass?, hshape]

theorem Widens.isClass_eq (h : t.Widens t') (type : TypeId) : t'.isClass type = t.isClass type := by
  rcases h.shape_cases type with hsame | ⟨hold, ⟨base, hshape⟩ | ⟨members, hshape⟩⟩
  · rw [isClass, isClass, hsame]
  · rw [isClass, isClass, hold, hshape]
  · rw [isClass, isClass, hold, hshape]

/-- Only classes and applied generics have a class among their ancestors. -/
theorem isClass_of_mem_ancestors (htarget : t.isClass target = true) (h : target ∈ t.ancestors c) :
    t.isClass c = true := by
  rcases List.mem_cons.1 h with rfl | h
  · exact htarget
  · rw [above?] at h
    rw [isClass]
    cases hshape : t.shape c with
    | cls | applied => rfl
    | _ => simp [hshape] at h

section

variable (h : t.LiesUnder target type)
include h

theorem LiesUnder.shape (htarget : t.isClass target = true) :
    (∃ base, t.shape type = .hierarchy base) ∨ t.isClass type = true := by
  rw [LiesUnder, treeClass] at h
  split at h
  next base hshape => exact Or.inl ⟨base, hshape⟩
  next => exact Or.inr (isClass_of_mem_ancestors htarget h)

theorem LiesUnder.spread_eq (htarget : t.isClass target = true) : t.spread type = [type] := by
  rw [spread]
  rcases h.shape htarget with ⟨base, hshape⟩ | hcls
  · rw [hshape]
  · rcases isClass_cases hcls with ⟨_, hshape⟩ | ⟨_, _, hshape⟩ <;> rw [hshape]

/-- The concrete types of a type below a class descend from the class. -/
theorem LiesUnder.mem_ancestors (hf : t.Founded) (hc : t.OverClasses)
    (htarget : t.isClass target = true) (hadmits : t.Admits type c) : target ∈ t.ancestors c := by
  rcases h.shape htarget with ⟨base, hshape⟩ | hcls
  · rw [LiesUnder, treeClass_of_hierarchy hshape] at h
    rw [Admits, hshape] at hadmits
    have hk := known_of_isExact hadmits.isExact
    exact ancestors_trans hf hc hk (hadmits.1.mem_ancestors hf) h
  · rcases isClass_cases hcls with ⟨_, hshape⟩ | ⟨_, _, hshape⟩
    all_goals
      rw [Admits, hshape] at hadmits
      rw [LiesUnder, treeClass, hshape] at h
      exact hadmits ▸ h

end

/-! ## Narrowing a part -/

/-- Narrowing what is no hierarchy keeps all of it or nothing. -/
theorem narrowPart_of_plain (htarget : t.isClass target = true)
    (hhierarchy : ∀ base, t.shape part ≠ .hierarchy base) (hnoReturn : t.shape part ≠ .noReturn) :
    narrowPart part target t = (if t.isSubclass part target then some part else none, t) := by
  by_cases heq : part = target
  · subst heq
    have hself : t.isSubclass part part = true := isSubclass_iff.2 (self_mem_ancestors t part)
    simp [narrowPart, hself]
  have hnot : t.isClass part = false → t.isSubclass part target = false := by
    intro hcls
    by_contra h
    rw [Bool.not_eq_false, isSubclass_iff] at h
    simp [isClass_of_mem_ancestors htarget h] at hcls
  rw [isClass] at hnot
  cases hshape : t.shape part with
  | hierarchy base => exact absurd hshape (hhierarchy base)
  | noReturn => exact absurd hshape hnoReturn
  | metaclass | hierarchyMetaclass =>
    have hbelow := hnot (by rw [hshape])
    rcases isClass_cases htarget with ⟨info, hclass⟩ | ⟨generic, args, hclass⟩
    · simp [narrowPart, heq, hclass, hshape, hbelow]
    · simp [narrowPart, heq, hclass, hshape, hbelow]
  | _ =>
    simp only [narrowPart, run_get_bind, heq, if_false, targetClass?_of_isClass htarget, hshape]
    rfl

theorem narrowPart_of_hierarchy (htarget : t.isClass target = true)
    (hshape : t.shape part = .hierarchy base) :
    narrowPart part target t =
      if t.isSubclass base target then (some part, t)
      else if t.isSubclass target base then (some (hierarchy target t).1, (hierarchy target t).2)
      else (none, t) := by
  have hne : part ≠ target := by
    rintro rfl
    simp [isClass, hshape] at htarget
  simp only [narrowPart, run_get_bind, hne, if_false, targetClass?_of_isClass htarget, hshape]
  split
  · rfl
  · split <;> rfl

section

variable (part target : TypeId) (t : TypeTable)

/-- Narrowing leaves the table as it is, or makes the hierarchy of the class that the target
asks for. -/
theorem narrowPart_same_or_makes : (narrowPart part target t).2 = t ∨
      ∃ cls, t.targetClass? target = some cls ∧
        narrowPart part target t = (some (hierarchy cls t).1, (hierarchy cls t).2) := by
  rw [narrowPart, run_get_bind]
  split
  · exact Or.inl rfl
  cases t.shape part with
  | hierarchy base =>
    cases t.targetClass? target with
    | none => exact Or.inl rfl
    | some cls =>
      dsimp only
      split
      · exact Or.inl rfl
      split
      · exact Or.inr ⟨cls, rfl, rfl⟩
      · exact Or.inl rfl
  | metaclass | hierarchyMetaclass => cases t.shape target <;> exact Or.inl rfl
  | noReturn => exact Or.inl rfl
  | _ => cases t.targetClass? target <;> exact Or.inl rfl

theorem narrowPart_widens : t.Widens (narrowPart part target t).2 := by
  rcases narrowPart_same_or_makes part target t with hsame | ⟨cls, -, hrun⟩
  · rw [hsame]
    exact .refl t
  · rw [hrun]
    exact hierarchy_widens cls

end

theorem Regular.keptByJoins : KeptByJoins Regular where
  known_base := fun h hshape => h.founded.known_of_hierarchy hshape
  known_members := fun h hshape => h.founded.known_of_mem_union hshape
  hierarchy := fun h hk => h.hierarchy hk
  unionOf := fun h hk => ⟨h.unionOf hk, (unionOf_builds h.founded hk).2⟩

theorem narrowMembers_cons (target member : TypeId) (rest : List TypeId) (t : TypeTable) :
    narrowMembers target (member :: rest) t =
      let first := narrowPart member target t
      let others := narrowMembers target rest first.2
      (first.1.toList ++ others.1, others.2) := rfl

/-- A kept type is one of the parts, or the hierarchy of the class in the place of a hierarchy
above it. -/
def ComesFrom (t : TypeTable) (cls : TypeId) (parts : List TypeId) (t' : TypeTable)
    (kept : TypeId) : Prop :=
  kept ∈ parts ∨
    t'.shape kept = .hierarchy cls ∧
      ∃ part ∈ parts, ∃ base, t.shape part = .hierarchy base ∧ base ∈ t.ancestors cls

/-- What later parts come from is the same seen from an earlier table. -/
theorem ComesFrom.earlier (h : t'.ComesFrom cls parts t'' kept) (hwidens : t.Widens t')
    (hf : t.Founded) (hcls : t.isClass cls = true) (hk : ∀ part ∈ parts, t.Known part) :
    t.ComesFrom cls parts t'' kept := by
  rcases h with hmem | ⟨hshape, part, hpart, base, hbase, habove⟩
  · exact Or.inl hmem
  · rw [hwidens.shape_eq part (hk part hpart)] at hbase
    rw [hwidens.grows.ancestors_eq hf (known_of_isClass hcls)] at habove
    exact Or.inr ⟨hshape, part, hpart, base, hbase, habove⟩

theorem ComesFrom.later (h : t.ComesFrom cls parts t' kept) (hwidens : t'.Widens t'') :
    t.ComesFrom cls parts t'' kept :=
  h.imp_right fun ⟨hshape, hpart⟩ => ⟨hwidens.shape_hierarchy hshape, hpart⟩

theorem ComesFrom.mono {more : List TypeId} (h : t.ComesFrom cls parts t' kept)
    (hsubset : ∀ part ∈ parts, part ∈ more) : t.ComesFrom cls more t' kept := by
  rcases h with hmem | ⟨hshape, part, hpart, hbase⟩
  · exact Or.inl (hsubset kept hmem)
  · exact Or.inr ⟨hshape, part, hsubset part hpart, hbase⟩

/-- What is kept of parts lies under the target and has the concrete types that descend
from it. -/
structure Keeps (t : TypeTable) (target : TypeId) (parts kept : List TypeId) (t' : TypeTable) :
    Prop where
  widens : t.Widens t'
  regular : t'.Regular
  known : ∀ k ∈ kept, t'.Known k
  under : ∀ k ∈ kept, t'.LiesUnder target k
  admits : ∀ part ∈ parts, ∀ c, t.Admits part c → target ∈ t.ancestors c → ∃ k ∈ kept, t'.Admits k c
  comesFrom : ∀ k ∈ kept, t.ComesFrom target parts t' k

theorem keeps_self (h : t.Regular) (hk : t.Known part) (hunder : t.LiesUnder target part) :
    t.Keeps target [part] [part] t where
  widens := .refl t
  regular := h
  known := by simpa using hk
  under := by simpa using hunder
  admits := by
    intro part' hpart c hadmits _
    exact ⟨part', hpart, hadmits⟩
  comesFrom := fun _ hk => Or.inl hk

theorem keeps_nothing (h : t.Regular) (hnone : ∀ c, t.Admits part c → target ∉ t.ancestors c) :
    t.Keeps target [part] [] t where
  widens := .refl t
  regular := h
  known := by simp
  under := by simp
  admits := by
    intro part' hpart c hadmits hbelow
    obtain rfl := List.mem_singleton.1 hpart
    exact absurd hbelow (hnone c hadmits)
  comesFrom := by simp

/-- Which types descend from a class does not change when hierarchies and unions are added. -/
theorem Widens.mem_ancestors_iff (h : t.Widens t') (hf : t.Founded)
    (htarget : t.isClass target = true) : target ∈ t'.ancestors c ↔ target ∈ t.ancestors c := by
  have htarget' : t'.isClass target = true := (h.isClass_eq target).trans htarget
  by_cases hk : t.Known c
  · rw [h.grows.ancestors_eq hf hk]
  · have hnot : t.isClass c = false := by rw [isClass, shape_of_not_known hk]
    have hnot' : t'.isClass c = false := (h.isClass_eq c).trans hnot
    refine iff_of_false (fun hmem => ?_) (fun hmem => ?_)
    · simp [isClass_of_mem_ancestors htarget' hmem] at hnot'
    · simp [isClass_of_mem_ancestors htarget hmem] at hnot

theorem Keeps.append {parts' kept kept' : List TypeId}
    (h : t.Keeps target parts kept t') (h' : t'.Keeps target parts' kept' t'') (hf : t.Founded)
    (htarget : t.isClass target = true) (hk : ∀ part ∈ parts', t.Known part) :
    t.Keeps target (parts ++ parts') (kept ++ kept') t'' where
  widens := h.widens.trans h'.widens
  regular := h'.regular
  known := List.forall_mem_append.2 ⟨fun k hk => h'.widens.known (h.known k hk), h'.known⟩
  under := by
    refine List.forall_mem_append.2 ⟨fun k hk => ?_, h'.under⟩
    exact (h'.widens.liesUnder_iff h.regular.founded (h.known k hk)).2 (h.under k hk)
  admits := by
    intro part hpart c hadmits hbelow
    rcases List.mem_append.1 hpart with hpart | hpart
    · obtain ⟨k, hk, hadmits⟩ := h.admits part hpart c hadmits hbelow
      exact ⟨k, List.mem_append_left kept' hk, (h'.widens.admits_iff (h.known k hk)).2 hadmits⟩
    · obtain ⟨k, hk, hadmits⟩ := h'.admits part hpart c
        ((h.widens.admits_iff (hk part hpart)).2 hadmits)
        ((h.widens.mem_ancestors_iff hf htarget).2 hbelow)
      exact ⟨k, List.mem_append_right kept hk, hadmits⟩
  comesFrom := by
    refine List.forall_mem_append.2 ⟨fun k hk => ?_, fun k hk' => ?_⟩
    · exact ((h.comesFrom k hk).later h'.widens).mono fun _ => List.mem_append_left parts'
    · exact ((h'.comesFrom k hk').earlier h.widens hf htarget hk).mono
        fun _ => List.mem_append_right parts

theorem narrowPart_keeps (h : t.Regular) (hc : t.OverClasses) (htarget : t.isClass target = true)
    (hk : t.Known part) (hnoReturn : t.shape part ≠ .noReturn) :
    t.Keeps target [part] (narrowPart part target t).1.toList (narrowPart part target t).2 := by
  have hf := h.founded
  have hktarget := known_of_isClass htarget
  by_cases hhierarchy : ∃ base, t.shape part = .hierarchy base
  · obtain ⟨base, hshape⟩ := hhierarchy
    rw [narrowPart_of_hierarchy htarget hshape]
    have hadmits_iff : ∀ c, t.Admits part c ↔ t.Realizes base c := by
      intro c
      rw [Admits, hshape]
    split
    next hbase =>
      refine keeps_self h hk ?_
      rw [LiesUnder, treeClass_of_hierarchy hshape]
      exact isSubclass_iff.1 hbase
    next hbase =>
      rw [isSubclass_iff] at hbase
      split
      next htargetBelow =>
        have hwidens := hierarchy_widens (t := t) target
        have hnew := (hierarchy_builds (t := t) hktarget).2
        have hshape' := shape_of_find? hnew
        refine ⟨hwidens, h.hierarchy hktarget, ?_, ?_, ?_, ?_⟩
        · simpa using known_of_find? hnew
        · intro k hk
          obtain rfl : k = (hierarchy target t).1 := by simpa using hk
          rw [LiesUnder, treeClass_of_hierarchy hshape']
          exact self_mem_ancestors _ target
        · intro part' hpart c hadmits hbelow
          obtain rfl := List.mem_singleton.1 hpart
          obtain ⟨-, info', hclass, habstract⟩ := (hadmits_iff c).1 hadmits
          refine ⟨(hierarchy target t).1, by simp, ?_⟩
          change (hierarchy target t).2.Admits (hierarchy target t).1 c
          rw [Admits, hshape']
          exact hwidens.realizes_iff.2
            ⟨standsBelow_of_mem_ancestors hf hc hclass hbelow, info', hclass, habstract⟩
        · intro k hk
          obtain rfl : k = (hierarchy target t).1 := by simpa using hk
          exact Or.inr ⟨hshape', part, by simp, base, hshape, isSubclass_iff.1 htargetBelow⟩
      next htargetBelow =>
        rw [isSubclass_iff] at htargetBelow
        refine keeps_nothing h fun c hadmits hbelow => ?_
        have hrealizes := (hadmits_iff c).1 hadmits
        rcases ancestors_total hf hc (known_of_isExact hrealizes.isExact)
          (hrealizes.1.mem_ancestors hf) hbelow with hle | hle
        · exact absurd hle htargetBelow
        · exact absurd hle hbase
  · have hplain := not_exists.1 hhierarchy
    rw [narrowPart_of_plain htarget hplain hnoReturn]
    split
    next hbelow =>
      refine keeps_self h hk ?_
      rw [LiesUnder, treeClass_of_plain hplain]
      exact isSubclass_iff.1 hbelow
    next hnot =>
      rw [isSubclass_iff] at hnot
      refine keeps_nothing h fun c hadmits hbelow => ?_
      rw [Admits] at hadmits
      split at hadmits
      next base hshape => exact absurd hshape (hplain base)
      next =>
        -- A metaclass has no ancestors but itself.
        obtain ⟨cls, -, hfind⟩ := hadmits
        have hcls := isClass_of_mem_ancestors htarget hbelow
        simp [isClass, shape_of_find? hfind] at hcls
      next =>
        subst hadmits
        exact absurd hbelow hnot

/-! ## Unions of parts below a class -/

section

variable (h : t.Regular) (hc : t.OverClasses) (htarget : t.isClass target = true)
  (hk : ∀ type ∈ types, t.Known type) (hunder : ∀ type ∈ types, t.LiesUnder target type)
  (hsome : types ≠ [])
include h hc htarget hk hunder hsome

/-- Types below a class only merge into hierarchies below it. -/
theorem liesUnder_of_mem_spread_unionOf
    (hpart : part ∈ (unionOf types t).2.spread (unionOf types t).1) :
    (unionOf types t).2.LiesUnder target part := by
  have hf := h.founded
  have hwidens := unionOf_widens types t
  have h' := h.unionOf hk
  have hspread : ∀ type ∈ types, ∀ x ∈ t.parts type, x = type := by
    intro type htype x hx
    have hmem := ((h.mem_parts_iff (hk type htype)).1 hx).1
    rwa [(hunder type htype).spread_eq htarget, List.mem_singleton] at hmem
  have hnoReturn : part ≠ .noReturn := by
    rintro rfl
    obtain ⟨type, htype⟩ := List.exists_mem_of_ne_nil types hsome
    have hunion := h'.eq_noReturn_of_mem_spread hpart
    obtain rfl := h.eq_noReturn_of_unionOf hc hk hunion htype
    rcases (hunder .noReturn htype).shape htarget with ⟨base, hshape⟩ | hclass
    · simp [hf.noReturn] at hshape
    · simp [isClass, hf.noReturn] at hclass
  obtain ⟨members, result, hnodup, hmerges, hmembers, hresult⟩ :=
    h.merges_parts_unionOf hk (.refl _) h'
  have hknown : ∀ member ∈ members, (unionOf types t).2.Known member := by
    intro member hmember
    obtain ⟨type, htype, hmemberPart⟩ := (hmembers member).1 hmember
    exact hwidens.known (hf.known_of_mem_parts (hk type htype) hmemberPart)
  have hstart : ∀ member ∈ members, (unionOf types t).2.LiesUnder target member := by
    intro member hmember
    obtain ⟨type, htype, hmemberPart⟩ := (hmembers member).1 hmember
    rw [hspread type htype member hmemberPart]
    exact (hwidens.liesUnder_iff hf (hk type htype)).2 (hunder type htype)
  have hparts := (h'.mem_parts_iff (unionOf_builds hf hk).2).2 ⟨hpart, hnoReturn⟩
  rcases hmerges.mem_or_mergedFrom h' (hwidens.overClasses hc) hknown (.of_nodup hnodup)
      (fun member hmember => Or.inl hmember) ((hresult part).1 hparts) with
    hmem | ⟨base, group, hshape, -, hgroup, -, hlowest⟩
  · exact hstart part hmem
  · rw [LiesUnder, treeClass_of_hierarchy hshape]
    refine hlowest.lowest target fun member hmember => ?_
    obtain ⟨cls, hcls, -⟩ := hlowest.shared member hmember
    have hmemberUnder := hstart member (hgroup member hmember)
    rw [LiesUnder, treeClass_of_mergeClass? hcls] at hmemberUnder
    exact ⟨cls, hcls, hmemberUnder⟩

/-- The union of types below a class has no other concrete types than those of the class. -/
theorem mem_ancestors_of_unionOf
    (hconcrete : c ∈ (unionOf types t).2.concreteTypes (unionOf types t).1) :
    target ∈ (unionOf types t).2.ancestors c := by
  have hwidens := unionOf_widens types t
  have hf' := (h.unionOf hk).founded
  obtain ⟨part, hpart, hadmits⟩ := (mem_concreteTypes hf').1 hconcrete
  have hpartUnder := liesUnder_of_mem_spread_unionOf h hc htarget hk hunder hsome hpart
  exact hpartUnder.mem_ancestors hf' (hwidens.overClasses hc)
    ((hwidens.isClass_eq target).trans htarget) hadmits

end

/-! ## Narrowing an argument -/

theorem narrowTo_of_part (hunion : ∀ members, t.shape part ≠ .union members) :
    narrowTo part target t = narrowPart part target t := by
  by_cases heq : part = target
  · simp [narrowTo, narrowPart, heq]
  · simp only [narrowTo, heq, if_false, run_get_bind]

theorem narrowTo_of_union (hshape : t.shape type = .union members) (hne : type ≠ target) :
    narrowTo type target t =
      unionOfKept (narrowMembers target members t).1 (narrowMembers target members t).2 := by
  simp only [narrowTo, hne, if_false, run_get_bind, hshape]
  rfl

theorem unionOfKept_of_ne_nil {kept : List TypeId} (h : kept ≠ []) (t : TypeTable) :
    unionOfKept kept t = (some (unionOf kept t).1, (unionOf kept t).2) := by
  rw [unionOfKept.eq_def]
  split
  next => exact absurd rfl h
  next => rfl

/-- A type that is no union is the union of itself. -/
theorem unionOf_part (hunion : ∀ members, t.shape part ≠ .union members) :
    unionOf [part] t = (part, t) := by
  have hspread : t.spread part = [part] := by simp [spread]
  have hunmerged : t.unmerged [part] = [part] := by simp [unmerged, flatten_eq, hspread, addNew]
  rw [unionOf_eq, hunmerged]
  rfl

theorem ne_of_union_of_isClass (hshape : t.shape type = .union members)
    (htarget : t.isClass target = true) : type ≠ target := by
  rintro rfl
  simp [isClass, hshape] at htarget

theorem narrowMembers_keeps (h : t.Regular) (hc : t.OverClasses) (htarget : t.isClass target = true)
    (hmembers : ∀ member ∈ members, t.IsPart member) :
    t.Keeps target members (narrowMembers target members t).1
      (narrowMembers target members t).2 := by
  induction members generalizing t with
  | nil => refine ⟨.refl t, h, ?_, ?_, ?_, ?_⟩ <;> simp [narrowMembers]
  | cons member rest ih =>
    obtain ⟨⟨hk, hnoReturn, -⟩, hrest⟩ := List.forall_mem_cons.1 hmembers
    have hkeeps := narrowPart_keeps h hc htarget hk hnoReturn
    have hwidens := hkeeps.widens
    have hlater := ih hkeeps.regular (hwidens.overClasses hc)
      ((hwidens.isClass_eq target).trans htarget)
        fun part hpart => hwidens.isPart (hrest part hpart)
    exact hkeeps.append hlater h.founded htarget fun part hpart => (hrest part hpart).1

theorem IsArgument.narrowMembers_keeps (harg : t.IsArgument arg) (h : t.Regular)
    (hc : t.OverClasses) (htarget : t.isClass target = true) :
    t.Keeps target (t.spread arg) (narrowMembers target (t.spread arg) t).1
      (narrowMembers target (t.spread arg) t).2 :=
  TypeTable.narrowMembers_keeps h hc htarget fun _ hmember => harg.of_mem_spread h hmember

/-- Narrowing joins what is kept of the members, also when the only one is the type itself. -/
theorem narrowTo_eq (h : t.Regular) (hc : t.OverClasses) (harg : t.IsArgument arg)
    (htarget : t.isClass target = true) :
    narrowTo arg target t =
      unionOfKept (narrowMembers target (t.spread arg) t).1
        (narrowMembers target (t.spread arg) t).2 := by
  by_cases hunion : ∃ members, t.shape arg = .union members
  · obtain ⟨members, hshape⟩ := hunion
    have hspread : t.spread arg = members := by rw [spread, hshape]
    rw [narrowTo_of_union hshape (ne_of_union_of_isClass hshape htarget), hspread]
  · have hpart := not_exists.1 hunion
    have hspread : t.spread arg = [arg] := by simp [spread]
    have hkeeps := harg.narrowMembers_keeps h hc htarget
    have hrun : narrowMembers target [arg] t =
        ((narrowPart arg target t).1.toList, (narrowPart arg target t).2) := by
      simp [narrowMembers]
    rw [hspread, hrun] at hkeeps
    rw [hspread, hrun, narrowTo_of_part hpart]
    generalize narrowPart arg target t = run at hkeeps ⊢
    rcases run with ⟨_ | kept, t'⟩
    · rfl
    · have hunder := hkeeps.under kept (by simp)
      have hplain := hunder.spread_eq ((hkeeps.widens.isClass_eq target).trans htarget)
      have hkeptPart : ∀ members, t'.shape kept ≠ .union members := by
        intro members hshape
        rw [spread, hshape] at hplain
        have hnormal := hkeeps.regular.normal kept members hshape
        simpa [hplain] using hnormal.two_le_length
      rw [Option.toList_some, unionOfKept_of_ne_nil (by simp), unionOf_part hkeptPart]

/-- What is left of an argument has exactly the concrete types that are accepted. -/
structure Restricts (t : TypeTable) (arg : TypeId) (accepted : TypeId → Bool)
    (kept : Option TypeId) (t' : TypeTable) : Prop where
  widens : t.Widens t'
  regular : t'.Regular
  known : ∀ k, kept = some k → t'.Known k
  mem_iff :
    ∀ c ∈ t.concreteTypes arg, (∃ k, kept = some k ∧ c ∈ t'.concreteTypes k) ↔ accepted c = true

variable (h : t.Regular) (hc : t.OverClasses) (harg : t.IsArgument arg)
  (htarget : t.isClass target = true)
include h hc harg htarget

theorem unionOfKept_restricts {kept : List TypeId}
    (hkeeps : t.Keeps target (t.spread arg) kept t') :
    t.Restricts arg (t.isSubclass · target) (unionOfKept kept t').1 (unionOfKept kept t').2 := by
  have hf := h.founded
  have hc' := hkeeps.widens.overClasses hc
  have hadmits : ∀ c ∈ t.concreteTypes arg, target ∈ t.ancestors c →
      ∃ k ∈ kept, t'.Admits k c := by
    intro c hconcrete hbelow
    obtain ⟨part, hpart, hadmits⟩ := (mem_concreteTypes hf).1 hconcrete
    exact hkeeps.admits part hpart c hadmits hbelow
  rw [unionOfKept.eq_def]
  split
  next =>
    refine ⟨hkeeps.widens, hkeeps.regular, by simp, fun c hconcrete => ?_⟩
    refine iff_of_false (by simp) fun hbelow => ?_
    obtain ⟨k, hk, -⟩ := hadmits c hconcrete (isSubclass_iff.1 hbelow)
    simp at hk
  next hsome =>
    have htarget' : t'.isClass target = true := (hkeeps.widens.isClass_eq target).trans htarget
    have hwidens := hkeeps.widens.trans (unionOf_widens kept t')
    refine ⟨hwidens, hkeeps.regular.unionOf hkeeps.known, ?_, fun c hconcrete => ?_⟩
    · intro k hk
      cases hk
      exact (unionOf_builds hkeeps.regular.founded hkeeps.known).2
    rw [isSubclass_iff]
    constructor
    · rintro ⟨k, hk, hmem⟩
      cases hk
      exact (hwidens.mem_ancestors_iff hf htarget).1 (mem_ancestors_of_unionOf hkeeps.regular hc'
        htarget' hkeeps.known hkeeps.under (by simpa using hsome) hmem)
    · intro hbelow
      obtain ⟨k, hk, hadmits⟩ := hadmits c hconcrete hbelow
      refine ⟨_, rfl, hkeeps.regular.mem_concreteTypes_of_mem hc' hkeeps.known hk ?_ ?_ ?_⟩
      · rw [mem_concreteTypes hkeeps.regular.founded, (hkeeps.under k hk).spread_eq htarget']
        exact ⟨k, by simp, hadmits⟩
      · rintro rfl
        have hexact := harg.isExact h hconcrete
        simp [hf.noReturn, Shape.isExact] at hexact
      · rw [hkeeps.widens.isAbstract_eq]
        exact harg.isAbstract_eq_false h hconcrete

/-- Narrowing to a class keeps the concrete types that descend from it. -/
theorem narrowTo_restricts :
    t.Restricts arg (t.isSubclass · target) (narrowTo arg target t).1
      (narrowTo arg target t).2 := by
  rw [narrowTo_eq h hc harg htarget]
  exact unionOfKept_restricts h hc harg htarget (harg.narrowMembers_keeps h hc htarget)

end TypeTable

end Callsite
