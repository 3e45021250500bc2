import Callsite.Proofs.Matching.Narrowing

/-!
# Narrowing is intersection

Narrowing an argument to a class leaves a type whose concrete types are those of the
argument that descend from the class, and narrowing that type again leaves it as it is.
Members of a union lie apart, so those that are kept only merge when the hierarchy of the
class is among them; it then stands in the place of a hierarchy above the class, which has
all of its concrete types.
-/

namespace Callsite.TypeTable

variable {t t' : TypeTable} {type target cls base part arg kept c : TypeId}
variable {members : List TypeId}

/-! ## Hierarchies as targets -/

section

variable (hcls : t.isClass cls = true) (htarget : t.shape target = .hierarchy cls)
include hcls htarget

/-- A hierarchy asks for the same as its base. -/
theorem narrowPart_hierarchy (part : TypeId) :
    narrowPart part target t = narrowPart part cls t := by
  have hself : t.isSubclass cls cls = true := isSubclass_iff.2 (self_mem_ancestors t cls)
  have hasks : t.targetClass? target = some cls := by rw [targetClass?, htarget]
  by_cases hpart : part = target
  · subst hpart
    rw [narrowPart_of_hierarchy hcls htarget, if_pos hself]
    simp [narrowPart]
  by_cases hclass : part = cls
  · subst hclass
    rcases isClass_cases hcls with ⟨info, hshape⟩ | ⟨generic, args, hshape⟩
    · simp [narrowPart, hpart, hshape, hasks, hself]
    · simp [narrowPart, hpart, hshape, hasks, hself]
  simp only [narrowPart, run_get_bind, hpart, hclass, if_false, hasks, targetClass?_of_isClass hcls]
  rcases isClass_cases hcls with ⟨info, hshape⟩ | ⟨generic, args, hshape⟩
  · simp only [htarget, hshape]
  · simp only [htarget, hshape]

theorem narrowMembers_hierarchy (members : List TypeId) :
    narrowMembers target members t = narrowMembers cls members t := by
  induction members generalizing t with
  | nil => rfl
  | cons member rest ih =>
    have hwidens := narrowPart_widens member cls t
    have hrest := ih ((hwidens.isClass_eq cls).trans hcls) (hwidens.shape_hierarchy htarget)
    simp only [narrowMembers_cons, narrowPart_hierarchy hcls htarget, hrest]

theorem narrowTo_hierarchy (arg : TypeId) : narrowTo arg target t = narrowTo arg cls t := by
  by_cases hunion : ∃ members, t.shape arg = .union members
  · obtain ⟨members, hshape⟩ := hunion
    have hne : arg ≠ target := by
      rintro rfl
      simp [hshape] at htarget
    rw [narrowTo_of_union hshape hne, narrowTo_of_union hshape (ne_of_union_of_isClass hshape hcls),
      narrowMembers_hierarchy hcls htarget]
  · have hpart := not_exists.1 hunion
    rw [narrowTo_of_part hpart, narrowTo_of_part hpart, narrowPart_hierarchy hcls htarget]

end

/-! ## Nothing is added -/

/-- The concrete types of a kept type are concrete types of the argument. -/
theorem ComesFrom.mem_concreteTypes (h : t.ComesFrom cls (t.spread arg) t' kept) (hr : t.Regular)
    (hc : t.OverClasses) (hwidens : t.Widens t') (hk : ∀ part ∈ t.spread arg, t.Known part)
    (hadmits : t'.Admits kept c) : c ∈ t.concreteTypes arg := by
  rw [TypeTable.mem_concreteTypes hr.founded]
  rcases h with hmem | ⟨hshape, part, hpart, base, hbase, habove⟩
  · exact ⟨kept, hmem, (hwidens.admits_iff (hk kept hmem)).1 hadmits⟩
  · rw [admits_of_hierarchy hshape, hwidens.realizes_iff] at hadmits
    obtain ⟨info, hinfo⟩ := hadmits.isClass
    have hbelow := standsBelow_of_mem_ancestors hr.founded hc hinfo habove
    exact ⟨part, hpart, (admits_of_hierarchy hbase).2 ⟨hbelow.trans hadmits.1, hadmits.2⟩⟩

/-- Different members of one argument share no ancestor below the roots. -/
theorem IsArgument.not_isLowestAbove {group : List TypeId} {a b : TypeId} (harg : t.IsArgument arg)
    (h : t.Regular) (hc : t.OverClasses) (hwidens : t.Widens t') (hr' : t'.Regular)
    (hgroup : ∀ member ∈ group, member ∈ t.spread arg) (ha : a ∈ group) (hb : b ∈ group)
    (hne : a ≠ b) (hroot : isRoot base = false) : ¬ t'.IsLowestAbove group base := by
  intro hlowest
  have hmem : ∀ member ∈ group, member ∈ t.parts arg := by
    intro member hmember
    have hpart := hgroup member hmember
    have hnoReturn := (harg.of_mem_spread h hpart).2.1
    refine (h.mem_parts_iff harg.known).2 ⟨hpart, ?_⟩
    rintro rfl
    exact hnoReturn h.founded.noReturn
  have hka := (harg.of_mem_spread h (hgroup a ha)).1
  have hkb := (harg.of_mem_spread h (hgroup b hb)).1
  obtain ⟨ca, hca, hbaseA⟩ := hlowest.shared a ha
  obtain ⟨cb, hcb, hbaseB⟩ := hlowest.shared b hb
  have hmerge := commonBase?_ne_none hr'.founded (hwidens.overClasses hc) hr'.rootsOnTop
    (hwidens.known hka) hca hcb hbaseA hbaseB hroot
  rw [hwidens.grows.commonBase?_eq h.founded hka hkb] at hmerge
  exact hmerge (h.parts_apart arg a (hmem a ha) b (hmem b hb) hne)

theorem mem_concreteTypes_of_unionOf_kept {kept : List TypeId} (h : t.Regular) (hc : t.OverClasses)
    (harg : t.IsArgument arg) (hcls : t.isClass cls = true)
    (hkeeps : t.Keeps cls (t.spread arg) kept t') (hsome : kept ≠ [])
    (hconcrete : c ∈ (unionOf kept t').2.concreteTypes (unionOf kept t').1) :
    c ∈ t.concreteTypes arg := by
  have hr' := hkeeps.regular
  have hc' := hkeeps.widens.overClasses hc
  have hcls' : t'.isClass cls = true := (hkeeps.widens.isClass_eq cls).trans hcls
  have hwidens := unionOf_widens kept t'
  have hknown := fun part (hpart : part ∈ t.spread arg) => (harg.of_mem_spread h hpart).1
  have hspread : ∀ k ∈ kept, t'.spread k = [k] := fun k hk => (hkeeps.under k hk).spread_eq hcls'
  have hkept : ∀ k ∈ kept, t'.Admits k c → c ∈ t.concreteTypes arg := fun k hk =>
    (hkeeps.comesFrom k hk).mem_concreteTypes h hc hkeeps.widens hknown
  rcases hr'.mem_concreteTypes_cases hc' hkeeps.known hsome hconcrete with
    ⟨k, hk, hmem⟩ |
    ⟨whole, ⟨base, group, hwhole, hroot, hgroup, ⟨a, ha, b, hb, hne⟩, hlowest⟩, hadmits⟩
  · obtain ⟨part, hpart, hadmits⟩ := (TypeTable.mem_concreteTypes hr'.founded).1 hmem
    rw [hspread k hk, List.mem_singleton] at hpart
    exact hkept k hk (hpart ▸ hadmits)
  have hgroupKept : ∀ member ∈ group, member ∈ kept := by
    intro member hmember
    obtain ⟨k, hk, hmem⟩ := mem_flatten.1 (hgroup member hmember)
    rw [hspread k hk, List.mem_singleton] at hmem
    exact hmem ▸ hk
  by_cases hhierarchy : ∃ k ∈ kept, t'.shape k = .hierarchy cls
  · -- The hierarchy of the class is among the kept types and admits all that stands below it.
    obtain ⟨k, hk, hshape⟩ := hhierarchy
    have hbelow := mem_ancestors_of_unionOf hr' hc' hcls' hkeeps.known hkeeps.under hsome hconcrete
    rw [admits_of_hierarchy hwhole, hwidens.realizes_iff] at hadmits
    rw [hwidens.mem_ancestors_iff hr'.founded hcls'] at hbelow
    obtain ⟨-, info, hinfo, habstract⟩ := hadmits
    have hstands := standsBelow_of_mem_ancestors hr'.founded hc' hinfo hbelow
    exact hkept k hk ((admits_of_hierarchy hshape).2 ⟨hstands, info, hinfo, habstract⟩)
  · -- All kept types are members of the argument, and those do not merge.
    have hmembers : ∀ member ∈ group, member ∈ t.spread arg := by
      intro member hmember
      have hk := hgroupKept member hmember
      exact (hkeeps.comesFrom member hk).resolve_right fun hnew => hhierarchy ⟨member, hk, hnew.1⟩
    exact absurd hlowest (harg.not_isLowestAbove h hc (hkeeps.widens.trans hwidens)
      (hr'.unionOf hkeeps.known) hmembers ha hb hne hroot)

/-! ## Narrowing again -/

theorem Regular.unionOfKept_members (h : t.Regular) (hshape : t.shape type = .union members) :
    unionOfKept members t = (some type, t) := by
  have hsome : members ≠ [] := by
    rintro rfl
    simpa using (h.normal type [] hshape).two_le_length
  rw [unionOfKept_of_ne_nil hsome, h.unionOf_members hshape]

theorem LiesUnder.narrowPart_eq (h : t.LiesUnder cls part) (hcls : t.isClass cls = true) :
    narrowPart part cls t = (some part, t) := by
  rcases h.shape hcls with ⟨base, hshape⟩ | hclass
  · rw [LiesUnder, treeClass_of_hierarchy hshape, ← isSubclass_iff] at h
    rw [narrowPart_of_hierarchy hcls hshape, if_pos h]
  · have hplain : ∀ base, t.shape part ≠ .hierarchy base := by
      intro base hshape
      simp [isClass, hshape] at hclass
    have hnoReturn : t.shape part ≠ .noReturn := by
      intro hshape
      simp [isClass, hshape] at hclass
    rw [LiesUnder, treeClass_of_plain hplain, ← isSubclass_iff] at h
    rw [narrowPart_of_plain hcls hplain hnoReturn, if_pos h]

theorem narrowMembers_of_liesUnder (hcls : t.isClass cls = true)
    (hunder : ∀ member ∈ members, t.LiesUnder cls member) :
    narrowMembers cls members t = (members, t) := by
  induction members with
  | nil => rfl
  | cons member rest ih =>
    have hrest := ih (List.forall_mem_cons.1 hunder).2
    rw [narrowMembers_cons, (hunder member List.mem_cons_self).narrowPart_eq hcls]
    simp [hrest]

/-- A type below the class is kept as it is. -/
theorem narrowTo_of_liesUnder (h : t.Regular) (hcls : t.isClass cls = true)
    (hunder : ∀ part ∈ t.spread type, t.LiesUnder cls part) :
    narrowTo type cls t = (some type, t) := by
  by_cases hunion : ∃ members, t.shape type = .union members
  · obtain ⟨members, hshape⟩ := hunion
    have hspread : t.spread type = members := by rw [spread, hshape]
    rw [narrowTo_of_union hshape (ne_of_union_of_isClass hshape hcls),
      narrowMembers_of_liesUnder hcls (hspread ▸ hunder)]
    exact h.unionOfKept_members hshape
  · have hpart := not_exists.1 hunion
    rw [narrowTo_of_part hpart]
    exact (hunder type (by simp [spread])).narrowPart_eq hcls

theorem narrowTo_leaves (h : t.Regular) (hc : t.OverClasses) (harg : t.IsArgument arg)
    (hcls : t.isClass cls = true) : ∀ kept, (narrowTo arg cls t).1 = some kept →
      (∀ part ∈ (narrowTo arg cls t).2.spread kept, (narrowTo arg cls t).2.LiesUnder cls part) ∧
      ∀ c ∈ (narrowTo arg cls t).2.concreteTypes kept, c ∈ t.concreteTypes arg := by
  intro kept hkept
  have hkeeps := harg.narrowMembers_keeps h hc hcls
  rw [narrowTo_eq h hc harg hcls] at hkept ⊢
  generalize narrowMembers cls (t.spread arg) t = run at hkeeps hkept ⊢
  have hsome : run.1 ≠ [] := by
    intro hnil
    simp [hnil, unionOfKept] at hkept
  rw [unionOfKept_of_ne_nil hsome] at hkept ⊢
  cases hkept
  refine ⟨fun part hpart => ?_, fun c => ?_⟩
  · exact liesUnder_of_mem_spread_unionOf hkeeps.regular (hkeeps.widens.overClasses hc)
      ((hkeeps.widens.isClass_eq cls).trans hcls) hkeeps.known hkeeps.under hsome hpart
  · exact mem_concreteTypes_of_unionOf_kept h hc harg hcls hkeeps hsome

/-- Narrowing an argument to a class, or to its hierarchy, leaves exactly the concrete types of
the argument that descend from the class, and narrowing what is left changes nothing.  If nothing
is left, no concrete type of the argument descends from the class. -/
theorem narrowTo_intersects (hr : t.Reached) (hc : t.OverClasses) (hcls : t.isClass cls = true)
    (htarget : target = cls ∨ t.shape target = .hierarchy cls) (harg : t.IsArgument arg) :
    let run := narrowTo arg target t
    (∀ kept, run.1 = some kept →
      (∀ c, c ∈ run.2.concreteTypes kept ↔
        c ∈ t.concreteTypes arg ∧ t.isSubclass c cls = true) ∧
      narrowTo kept target run.2 = (some kept, run.2)) ∧
    (run.1 = none → ∀ c ∈ t.concreteTypes arg, t.isSubclass c cls = false) := by
  intro run
  have h := hr.regular
  have hrun : run = narrowTo arg cls t := by
    rcases htarget with rfl | hshape
    · rfl
    · exact narrowTo_hierarchy hcls hshape arg
  have hrestricts := narrowTo_restricts h hc harg hcls
  have hleaves := narrowTo_leaves h hc harg hcls
  rw [← hrun] at hrestricts hleaves
  have hcls' : run.2.isClass cls = true := (hrestricts.widens.isClass_eq cls).trans hcls
  refine ⟨fun kept hkept => ⟨fun c => ⟨fun hconcrete => ?_, ?_⟩, ?_⟩, fun hnone c hconcrete => ?_⟩
  · have hmem := (hleaves kept hkept).2 c hconcrete
    exact ⟨hmem, (hrestricts.mem_iff c hmem).1 ⟨kept, hkept, hconcrete⟩⟩
  · rintro ⟨hmem, hbelow⟩
    obtain ⟨kept', hkept', hconcrete⟩ := (hrestricts.mem_iff c hmem).2 hbelow
    obtain rfl := Option.some.inj (hkept.symm.trans hkept')
    exact hconcrete
  · have hagain := narrowTo_of_liesUnder hrestricts.regular hcls' (hleaves kept hkept).1
    rcases htarget with rfl | hshape
    · exact hagain
    · rw [narrowTo_hierarchy hcls' (hrestricts.widens.shape_hierarchy hshape)]
      exact hagain
  · rw [Bool.eq_false_iff]
    intro hbelow
    obtain ⟨kept, hkept, -⟩ := (hrestricts.mem_iff c hconcrete).2 hbelow
    simp [hnone] at hkept

/-- The family with the union `⟨18⟩` of `Nil` and every `Foo`. -/
def familyOrNil : TypeTable :=
  (unionOf [⟨17⟩, ⟨5⟩] (hierarchy ⟨14⟩ family).2).2

theorem narrowTo_intersects_familyOrNil :
    familyOrNil.Reached ∧ familyOrNil.OverClasses ∧ familyOrNil.isClass ⟨15⟩ = true ∧
      familyOrNil.IsArgument ⟨18⟩ ∧
      ∃ kept, (narrowTo ⟨18⟩ ⟨15⟩ familyOrNil).1 = some kept ∧
        (∀ c, c ∈ (narrowTo ⟨18⟩ ⟨15⟩ familyOrNil).2.concreteTypes kept ↔
          c ∈ [⟨5⟩, ⟨14⟩, ⟨15⟩, ⟨16⟩] ∧ familyOrNil.isSubclass c ⟨15⟩ = true) ∧
        narrowTo kept ⟨15⟩ (narrowTo ⟨18⟩ ⟨15⟩ familyOrNil).2 =
          (some kept, (narrowTo ⟨18⟩ ⟨15⟩ familyOrNil).2) := by
  have hr : familyOrNil.Reached :=
    .unionOf (.hierarchy family_reached (by decide +kernel)) (by decide +kernel)
  have hc : familyOrNil.OverClasses := by decide +kernel
  have hcls : familyOrNil.isClass ⟨15⟩ = true := by decide +kernel
  have harg : familyOrNil.IsArgument ⟨18⟩ := ⟨by decide +kernel, by decide, by decide +kernel⟩
  have hconcrete : familyOrNil.concreteTypes ⟨18⟩ = [⟨5⟩, ⟨14⟩, ⟨15⟩, ⟨16⟩] := by decide +kernel
  have hkept : (narrowTo ⟨18⟩ ⟨15⟩ familyOrNil).1 = some ⟨19⟩ := by decide +kernel
  have hintersects := narrowTo_intersects hr hc hcls (.inl rfl) harg
  rw [hconcrete] at hintersects
  exact ⟨hr, hc, hcls, harg, ⟨19⟩, hkept, hintersects.1 ⟨19⟩ hkept⟩

end Callsite.TypeTable
