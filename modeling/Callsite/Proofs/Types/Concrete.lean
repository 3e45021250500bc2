import Callsite.Proofs.Types.Join

/-!
# The concrete types of a union

No value is lost when types are joined: a concrete type of an argument is a concrete
type of the union.  What a union adds are the concrete classes below the lowest common
ancestor of members that merged.
-/

namespace Callsite.TypeTable

variable {t t' : TypeTable} {type base x c whole part member : TypeId}
variable {types members result group : List TypeId}

/-! ## Concrete types of a part -/

/-- A value of a type that is no union can have the given concrete type. -/
def Admits (t : TypeTable) (part c : TypeId) : Prop :=
  match t.shape part with
  | .hierarchy base => t.Realizes base c
  | .hierarchyMetaclass base => ∃ cls, t.Realizes base cls ∧ t.find? (.metaclass cls) = some c
  | _ => c = part

theorem admits_of_hierarchy (h : t.shape part = .hierarchy base) :
    t.Admits part c ↔ t.Realizes base c := by
  rw [Admits, h]

theorem mem_addConcrete {found : List TypeId} (hf : t.Founded) :
    c ∈ t.addConcrete found part ↔ c ∈ found ∨ t.Admits part c := by
  rw [addConcrete, Admits]
  cases t.shape part with
  | hierarchy base => exact mem_descendantsWithin hf (by omega)
  | hierarchyMetaclass base =>
    simp only [mem_foldl_addNew, List.mem_filterMap, mem_descendants hf]
  | _ => exact mem_addNew

theorem mem_foldl_addConcrete {found : List TypeId} (hf : t.Founded) :
    c ∈ members.foldl t.addConcrete found ↔ c ∈ found ∨ ∃ member ∈ members, t.Admits member c :=
  mem_foldl_iff fun _ _ _ => mem_addConcrete hf

/-- The concrete types of a type are those of the members it contributes to a union. -/
theorem mem_concreteTypes (hf : t.Founded) :
    c ∈ t.concreteTypes type ↔ ∃ part ∈ t.spread type, t.Admits part c := by
  rw [concreteTypes, spread]
  cases t.shape type with
  | union members =>
    simp only [mem_foldl_addConcrete hf, List.not_mem_nil, false_or]
  | _ => simp [mem_addConcrete hf]

theorem Widens.realizes_iff (h : t.Widens t') : t'.Realizes base x ↔ t.Realizes base x :=
  realizes_iff_of_shape fun _ => h.shape_cls_iff

theorem Widens.spread_eq (h : t.Widens t') (hk : t.Known type) :
    t'.spread type = t.spread type := by
  rw [spread, spread, h.shape_eq type hk]

theorem Widens.admits_iff (h : t.Widens t') (hk : t.Known part) :
    t'.Admits part c ↔ t.Admits part c := by
  rw [Admits, Admits, h.shape_eq part hk]
  split
  next base _ => exact h.realizes_iff
  next base _ =>
    have hfind : ∀ cls, t'.find? (.metaclass cls) = t.find? (.metaclass cls) :=
      fun _ => h.find?_eq (by simp) (by simp) (by simp)
    simp only [h.realizes_iff, hfind]
  next => exact Iff.rfl

/-- Joining and narrowing types changes no concrete types. -/
theorem Widens.mem_concreteTypes_iff (h : t.Widens t') (hf : t.Founded) (hf' : t'.Founded)
    (hk : t.Known type) : c ∈ t'.concreteTypes type ↔ c ∈ t.concreteTypes type := by
  rw [mem_concreteTypes hf, mem_concreteTypes hf', h.spread_eq hk]
  refine exists_congr fun part => and_congr_right fun hpart => ?_
  exact h.admits_iff (known_of_mem_spread hf hk part hpart)

/-! ## Nothing is lost -/

/-- What has concrete classes below it is a class. -/
theorem Realizes.isClass (h : t.Realizes base x) : ∃ info, t.shape base = .cls info := by
  obtain ⟨hbelow, info, hshape, -⟩ := h
  rcases hbelow.cases_head with rfl | ⟨next, hnext, -⟩
  · exact ⟨info, hshape⟩
  · obtain ⟨info, hshape, -⟩ := mem_subclassesOf_iff_exists.1 hnext
    exact ⟨info, hshape⟩

/-- A part that absorbs another one has its concrete types. -/
theorem Absorbs.admits (h : t.Absorbs whole part) (hf : t.Founded) (hc : t.OverClasses)
    (hadmits : t.Admits part c) (habstract : t.isAbstract c = false) : t.Admits whole c := by
  rcases h with rfl | ⟨base, cls, hwhole, hcls, habove, -⟩
  · exact hadmits
  rw [Admits, hwhole]
  rw [mergeClass?] at hcls
  split at hcls
  next info hshape =>
    split at hcls
    · cases hcls
      rw [Admits, hshape] at hadmits
      obtain rfl : c = part := hadmits
      rw [isAbstract, hshape] at habstract
      exact ⟨standsBelow_of_mem_ancestors hf hc hshape habove, info, hshape, habstract⟩
    · simp at hcls
  next base' hshape =>
    cases hcls
    rw [Admits, hshape] at hadmits
    obtain ⟨info, hinfo⟩ := hadmits.isClass
    exact ⟨(standsBelow_of_mem_ancestors hf hc hinfo habove).trans hadmits.1, hadmits.2⟩
  next => simp at hcls

/-! ## What a union adds -/

/-- The class of every member of the group stands below the base, and every ancestor that all
of them share is an ancestor of the base. -/
structure IsLowestAbove (t : TypeTable) (group : List TypeId) (base : TypeId) : Prop where
  shared : ∀ member ∈ group, ∃ cls, t.mergeClass? member = some cls ∧ base ∈ t.ancestors cls
  lowest :
    ∀ x, (∀ member ∈ group, ∃ cls, t.mergeClass? member = some cls ∧ x ∈ t.ancestors cls) →
      x ∈ t.ancestors base

/-- A member that has merged from several of the members at the start. -/
def MergedFrom (t : TypeTable) (members : List TypeId) (merged : TypeId) : Prop :=
  ∃ base group, t.shape merged = .hierarchy base ∧ isRoot base = false ∧
    (∀ member ∈ group, member ∈ members) ∧ (∃ a ∈ group, ∃ b ∈ group, a ≠ b) ∧
    t.IsLowestAbove group base

/-- A member at the start, or merged from several, has the lowest class above a group. -/
theorem exists_group {cls : TypeId} (h : member ∈ members ∨ t.MergedFrom members member)
    (hcls : t.mergeClass? member = some cls) :
    ∃ group, (∀ x ∈ group, x ∈ members) ∧ t.IsLowestAbove group cls ∧
      (group = [member] ∨ ∃ a ∈ group, ∃ b ∈ group, a ≠ b) := by
  rcases h with hmem | ⟨base, group, hshape, -, hgroup, htwo, hlowest⟩
  · refine ⟨[member], by simpa using hmem, ⟨?_, ?_⟩, Or.inl rfl⟩
    · intro x hx
      rw [List.mem_singleton.1 hx]
      exact ⟨cls, hcls, self_mem_ancestors t cls⟩
    · intro x hx
      obtain ⟨cls', hcls', habove⟩ := hx member (by simp)
      obtain rfl := Option.some.inj (hcls.symm.trans hcls')
      exact habove
  · obtain rfl := Option.some.inj (hcls.symm.trans (mergeClass?_of_hierarchy hshape))
    exact ⟨group, hgroup, hlowest, Or.inr htwo⟩

/-- Two members that merge give the lowest class above both of their groups. -/
theorem IsLowestAbove.append {a b : TypeId} {group' : List TypeId} (ha : t.IsLowestAbove group a)
    (hb : t.IsLowestAbove group' b) (h : t.IsLowestShared a b base) (hf : t.Founded)
    (hc : t.OverClasses) (hka : t.Known a) (hk : ∀ member ∈ group ++ group', t.Known member) :
    t.IsLowestAbove (group ++ group') base where
  shared := by
    intro member hmember
    have hkmember := hk member hmember
    rcases List.mem_append.1 hmember with hmem | hmem
    · obtain ⟨cls, hcls, habove⟩ := ha.shared member hmem
      exact ⟨cls, hcls, ancestors_trans hf hc (known_of_mergeClass? hf hkmember hcls) habove h.left⟩
    · obtain ⟨cls, hcls, habove⟩ := hb.shared member hmem
      exact ⟨cls, hcls,
        ancestors_trans hf hc (known_of_mergeClass? hf hkmember hcls) habove h.right⟩
  lowest := by
    intro x hx
    refine h.mem_ancestors hf hc hka (ha.lowest x fun member hmember => ?_)
      (hb.lowest x fun member hmember => ?_)
    · exact hx member (List.mem_append_left group' hmember)
    · exact hx member (List.mem_append_right group hmember)

/-- Members that stay were there at the start, or have merged from several of those. -/
theorem Merges.mem_or_mergedFrom {start : List TypeId} (hmerges : t.Merges members result)
    (h : t.Regular) (hc : t.OverClasses) (hk : ∀ member ∈ start, t.Known member)
    (hrepeats : t.RepeatsMerge members)
    (hmembers : ∀ member ∈ members, member ∈ start ∨ t.MergedFrom start member) (hx : x ∈ result) :
    x ∈ start ∨ t.MergedFrom start x := by
  have hf := h.founded
  have hknown : ∀ member, member ∈ start ∨ t.MergedFrom start member → t.Known member := by
    rintro member (hmem | ⟨base, group, hshape, -⟩)
    · exact hk member hmem
    · exact known_of_shape_ne (by simp [hshape])
  induction hmerges with
  | done => exact hmembers x hx
  | @step members front others result base merged hmerge hmerged _ ih =>
    refine ih (hrepeats.step hmerge hmerged) (fun member hmember => ?_) hx
    rcases mem_afterMerge hmerge hmember with rfl | hmember
    · obtain ⟨a, before, b, after, rfl, rfl, hbase⟩ := firstMerge?_split hmerge
      have ha := hmembers a (by simp)
      have hb := hmembers b (by simp)
      obtain ⟨ca, cb, hca, hcb, hshared, hroot⟩ :=
        (commonBase?_eq_some_iff_lowest hf (hknown a ha)).1 hbase
      have hkca := known_of_mergeClass? hf (hknown a ha) hca
      obtain ⟨groupA, hgroupA, hlowestA, hsizeA⟩ := exists_group ha hca
      obtain ⟨groupB, hgroupB, hlowestB, hsizeB⟩ := exists_group hb hcb
      have hgroup : ∀ x ∈ groupA ++ groupB, x ∈ start := by
        intro x hx
        exact (List.mem_append.1 hx).elim (hgroupA x) (hgroupB x)
      have hlowest := hlowestA.append hlowestB hshared hf hc hkca fun x hx => hk x (hgroup x hx)
      by_cases heq : a = b
      · -- A member that stands twice is the hierarchy that it merges into.
        obtain ⟨base', hshape, hroot'⟩ := hrepeats.of_pair heq
        rw [← heq, commonBase?_self_of_hierarchy hf hshape hroot'] at hbase
        cases hbase
        have hshape' := shape_of_find? hmerged
        obtain rfl := h.eq_of_shape_eq member a (known_of_find? hmerged) (hknown a ha)
          (by simp [hshape', Shape.isInterned]) (by rw [hshape', hshape])
        exact ha
      · refine Or.inr ⟨base, groupA ++ groupB, shape_of_find? hmerged, hroot, hgroup, ?_, hlowest⟩
        rcases hsizeA with rfl | ⟨x, hx, y, hy, hne⟩
        · rcases hsizeB with rfl | ⟨x, hx, y, hy, hne⟩
          · exact ⟨a, by simp, b, by simp, heq⟩
          · exact ⟨x, List.mem_append_right _ hx, y, List.mem_append_right _ hy, hne⟩
        · exact ⟨x, List.mem_append_left _ hx, y, List.mem_append_left _ hy, hne⟩
    · exact hmembers member hmember

/-! ## Unions -/

section

variable (h : t.Regular) (hc : t.OverClasses) (hk : ∀ type ∈ types, t.Known type)
include h hc hk

theorem Regular.mem_concreteTypes_of_mem (htype : type ∈ types)
    (hconcrete : c ∈ t.concreteTypes type) (hne : c ≠ .noReturn)
    (habstract : t.isAbstract c = false) :
    c ∈ (TypeTable.unionOf types t).2.concreteTypes (TypeTable.unionOf types t).1 := by
  have hwidens := unionOf_widens types t
  have h' := h.unionOf hk
  have hc' := hwidens.overClasses hc
  have hjoin := h.unionOf_isJoin hk (.refl _) h' hc'
  obtain ⟨part, hpart, hadmits⟩ := (mem_concreteTypes h.founded).1 hconcrete
  have hpartNe : part ≠ .noReturn := by
    rintro rfl
    rw [Admits, h.founded.noReturn] at hadmits
    exact hne hadmits
  have hpart' : part ∈ t.parts type := (h.mem_parts_iff (hk type htype)).2 ⟨hpart, hpartNe⟩
  have hkpart := h.founded.known_of_mem_parts (hk type htype) hpart'
  rw [← hwidens.grows.parts_eq (hk type htype)] at hpart'
  obtain ⟨whole, hwhole, habsorbs⟩ := hjoin.absorbs type htype part hpart'
  have hadmits' := habsorbs.admits h'.founded hc' ((hwidens.admits_iff hkpart).2 hadmits)
    (by rw [hwidens.isAbstract_eq]; exact habstract)
  exact (mem_concreteTypes h'.founded).2
    ⟨whole, ((h'.mem_parts_iff hjoin.known).1 hwhole).1, hadmits'⟩

/-- The concrete types of a part of a union are those of an argument, unless the part has merged
from several. -/
theorem Regular.mem_concreteTypes_unionOf
    (hpart : part ∈ (TypeTable.unionOf types t).2.parts (TypeTable.unionOf types t).1)
    (hadmits : (TypeTable.unionOf types t).2.Admits part c) :
    (∃ type ∈ types, c ∈ t.concreteTypes type) ∨
      (TypeTable.unionOf types t).2.MergedFrom (t.flatten types) part := by
  have hwidens := unionOf_widens types t
  have h' := h.unionOf hk
  have hc' := hwidens.overClasses hc
  obtain ⟨members, result, hnodup, hmerges, hmembers, hresult⟩ :=
    h.merges_parts_unionOf hk (.refl _) h'
  have hknown : ∀ member ∈ members, t.Known member := by
    intro member hmember
    obtain ⟨type, htype, hmemberPart⟩ := (hmembers member).1 hmember
    exact h.founded.known_of_mem_parts (hk type htype) hmemberPart
  rcases hmerges.mem_or_mergedFrom h' hc'
    (fun member hmember => hwidens.known (hknown member hmember))
      (.of_nodup hnodup) (fun member hmember => Or.inl hmember) ((hresult part).1 hpart) with
    hmem | ⟨base, group, hshape, hroot, hgroup, htwo, hlowest⟩
  · obtain ⟨type, htype, hpart'⟩ := (hmembers part).1 hmem
    have hspread := ((h.mem_parts_iff (hk type htype)).1 hpart').1
    exact Or.inl ⟨type, htype, (mem_concreteTypes h.founded).2
      ⟨part, hspread, (hwidens.admits_iff (hknown part hmem)).1 hadmits⟩⟩
  · refine Or.inr ⟨base, group, hshape, hroot, fun member hmember => ?_, htwo, hlowest⟩
    obtain ⟨type, htype, hmemberPart⟩ := (hmembers member).1 (hgroup member hmember)
    exact mem_flatten.2 ⟨type, htype, ((h.mem_parts_iff (hk type htype)).1 hmemberPart).1⟩

end

theorem Regular.eq_noReturn_of_parts (h : t.Regular) (hk : t.Known type)
    (hparts : t.parts type = []) : type = .noReturn := by
  rcases parts_cases t type with ⟨members, hshape, hmembers⟩ | ⟨hshape, -⟩ | ⟨-, -, honly⟩
  · have hlength := (h.normal type members hshape).two_le_length
    simp [← hmembers, hparts] at hlength
  · exact h.eq_noReturn hk hshape
  · simp [hparts] at honly

/-- Types whose union is `NoReturn` are all `NoReturn`. -/
theorem Regular.eq_noReturn_of_unionOf (h : t.Regular) (hc : t.OverClasses)
    (hk : ∀ type ∈ types, t.Known type) (hunion : (TypeTable.unionOf types t).1 = .noReturn)
    (htype : type ∈ types) : type = .noReturn := by
  have hwidens := unionOf_widens types t
  have h' := h.unionOf hk
  have hjoin := h.unionOf_isJoin hk (.refl _) h' (hwidens.overClasses hc)
  have habsorbs := hjoin.absorbs type htype
  rw [hunion, parts_of_noReturn h'.founded.noReturn] at habsorbs
  refine h'.eq_noReturn_of_parts (hwidens.known (hk type htype)) ?_
  refine List.eq_nil_iff_forall_not_mem.2 fun part hpart => ?_
  obtain ⟨whole, hwhole, -⟩ := habsorbs part hpart
  simp at hwhole

theorem Founded.noReturn_mem_concreteTypes (hf : t.Founded) :
    .noReturn ∈ t.concreteTypes .noReturn := by
  rw [mem_concreteTypes hf, spread, hf.noReturn]
  refine ⟨.noReturn, by simp, ?_⟩
  rw [Admits, hf.noReturn]

/-- No other type than `NoReturn` has it as a member. -/
theorem Regular.eq_noReturn_of_mem_spread (h : t.Regular) (hmem : .noReturn ∈ t.spread type) :
    type = .noReturn := by
  rw [spread] at hmem
  split at hmem
  next members hshape => exact absurd rfl ((h.normal type members hshape).ne_noReturn _ hmem)
  next => exact (List.mem_singleton.1 hmem).symm

/-- The concrete types of a union of some types are theirs, or those of a part that has merged
from several of the members. -/
theorem Regular.mem_concreteTypes_cases (h : t.Regular) (hc : t.OverClasses)
    (hk : ∀ type ∈ types, t.Known type) (hsome : types ≠ [])
    (hconcrete : c ∈ (TypeTable.unionOf types t).2.concreteTypes (TypeTable.unionOf types t).1) :
    (∃ type ∈ types, c ∈ t.concreteTypes type) ∨
      ∃ part, (TypeTable.unionOf types t).2.MergedFrom (t.flatten types) part ∧
        (TypeTable.unionOf types t).2.Admits part c := by
  have h' := h.unionOf hk
  obtain ⟨part, hpart, hadmits⟩ := (mem_concreteTypes h'.founded).1 hconcrete
  have hknown := (unionOf_builds h.founded hk).2
  by_cases hpartNe : part = .noReturn
  · -- Only the union of `NoReturn` with itself has it as a member.
    have hunion := h'.eq_noReturn_of_mem_spread (hpartNe ▸ hpart)
    obtain ⟨type, htype⟩ := List.exists_mem_of_ne_nil types hsome
    obtain rfl := h.eq_noReturn_of_unionOf hc hk hunion htype
    rw [hpartNe, Admits, h'.founded.noReturn] at hadmits
    obtain rfl : c = .noReturn := hadmits
    exact Or.inl ⟨.noReturn, htype, h.founded.noReturn_mem_concreteTypes⟩
  · have hpart' := (h'.mem_parts_iff hknown).2 ⟨hpart, hpartNe⟩
    exact (h.mem_concreteTypes_unionOf hc hk hpart' hadmits).imp_right fun hmerged =>
      ⟨part, hmerged, hadmits⟩

/-- A union has the concrete types of its arguments.  What it adds, unless it is the union of
nothing, stands below the lowest common ancestor of two or more of the members. -/
theorem unionOf_concreteTypes (hr : t.Reached) (hc : t.OverClasses)
    (hk : ∀ type ∈ types, t.Known type) :
    let union := unionOf types t
    (∀ type ∈ types, ∀ c ∈ t.concreteTypes type, c ≠ .noReturn → t.isAbstract c = false →
      c ∈ union.2.concreteTypes union.1) ∧
    (types ≠ [] → ∀ c ∈ union.2.concreteTypes union.1,
      (∃ type ∈ types, c ∈ t.concreteTypes type) ∨
      ∃ group base, (∀ member ∈ group, member ∈ t.flatten types) ∧
        (∃ a ∈ group, ∃ b ∈ group, a ≠ b) ∧ union.2.IsLowestAbove group base ∧
        isRoot base = false ∧ union.2.isSubclass c base = true ∧ union.2.isAbstract c = false) := by
  have h := hr.regular
  have h' := h.unionOf hk
  refine ⟨fun type htype c hconcrete hne habstract => ?_, fun hsome c hconcrete => ?_⟩
  · exact h.mem_concreteTypes_of_mem hc hk htype hconcrete hne habstract
  refine (h.mem_concreteTypes_cases hc hk hsome hconcrete).imp_right ?_
  rintro ⟨part, ⟨base, group, hshape, hroot, hgroup, htwo, hlowest⟩, hadmits⟩
  obtain ⟨hbelow, info, hinfo, habstract⟩ := (admits_of_hierarchy hshape).1 hadmits
  refine ⟨group, base, hgroup, htwo, hlowest, hroot, ?_, ?_⟩
  · exact isSubclass_iff.2 (hbelow.mem_ancestors h'.founded)
  · rw [isAbstract, hinfo]
    exact habstract

/-- The union of no types is `NoReturn`, which is a concrete type of none of them and stands
below no two of them. -/
theorem mem_concreteTypes_unionOf_nil :
    standard.Reached ∧ standard.OverClasses ∧
      .noReturn ∈ (unionOf [] standard).2.concreteTypes (unionOf [] standard).1 ∧
      ¬ ((∃ type ∈ ([] : List TypeId), .noReturn ∈ standard.concreteTypes type) ∨
        ∃ group base, (∀ member ∈ group, member ∈ standard.flatten []) ∧
          (∃ a ∈ group, ∃ b ∈ group, a ≠ b) ∧
          (unionOf [] standard).2.IsLowestAbove group base ∧ isRoot base = false ∧
          (unionOf [] standard).2.isSubclass .noReturn base = true ∧
          (unionOf [] standard).2.isAbstract .noReturn = false) := by
  refine ⟨.standard, by decide +kernel, by decide +kernel, ?_⟩
  rintro (⟨type, htype, -⟩ | ⟨group, base, hgroup, ⟨a, ha, -⟩, -⟩)
  · simp at htype
  · simpa [flatten] using hgroup a ha

/-- `Foo` itself is no concrete type of `Bar` or `Baz`, but one of their union `Foo+`. -/
theorem unionOf_concreteTypes_family :
    family.Reached ∧ family.OverClasses ∧
      (⟨14⟩ : TypeId) ∈ (unionOf [⟨15⟩, ⟨16⟩] family).2.concreteTypes
        (unionOf [⟨15⟩, ⟨16⟩] family).1 ∧
      ⟨15⟩ ∈ (unionOf [⟨15⟩, ⟨16⟩] family).2.concreteTypes (unionOf [⟨15⟩, ⟨16⟩] family).1 ∧
      ∃ group base, (∀ member ∈ group, member ∈ family.flatten [⟨15⟩, ⟨16⟩]) ∧
        (∃ a ∈ group, ∃ b ∈ group, a ≠ b) ∧
        (unionOf [⟨15⟩, ⟨16⟩] family).2.IsLowestAbove group base := by
  have hc : family.OverClasses := by decide +kernel
  have hadded : (⟨14⟩ : TypeId) ∈
      (unionOf [⟨15⟩, ⟨16⟩] family).2.concreteTypes (unionOf [⟨15⟩, ⟨16⟩] family).1 := by
    decide +kernel
  have hnot : ¬ ∃ type ∈ [⟨15⟩, ⟨16⟩], (⟨14⟩ : TypeId) ∈ family.concreteTypes type := by
    decide +kernel
  have hk : ∀ type ∈ [(⟨15⟩ : TypeId), ⟨16⟩], family.Known type := by decide +kernel
  have hboth := unionOf_concreteTypes family_reached hc hk
  refine ⟨family_reached, hc, hadded, ?_, ?_⟩
  · exact hboth.1 ⟨15⟩ (by simp) ⟨15⟩ (by decide +kernel) (by decide) (by decide +kernel)
  · obtain ⟨group, base, hgroup, htwo, hlowest, -⟩ :=
      (hboth.2 (by simp) ⟨14⟩ hadded).resolve_left hnot
    exact ⟨group, base, hgroup, htwo, hlowest⟩

end Callsite.TypeTable
