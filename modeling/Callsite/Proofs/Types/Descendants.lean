import Callsite.Proofs.Types.Declaring
import Mathlib.Logic.Relation

/-!
# The classes below a class

A hierarchy stands for the concrete classes that can be reached from its base by
going to direct subclasses.  Only a declaration adds to them, and the new class is
reached from its ancestors alone.
-/

namespace Callsite.TypeTable

open Relation (ReflTransGen)

variable {t t' : TypeTable} {base type cls parent : TypeId}

/-- One class can be reached from another by going to direct subclasses. -/
def StandsBelow (t : TypeTable) : TypeId → TypeId → Prop :=
  ReflTransGen fun above below => below ∈ t.subclassesOf above

/-- A class that objects can have. -/
def IsConcrete (t : TypeTable) (type : TypeId) : Prop :=
  ∃ info, t.shape type = .cls info ∧ info.isAbstract = false

/-- A concrete class at or below a base. -/
def Realizes (t : TypeTable) (base type : TypeId) : Prop :=
  t.StandsBelow base type ∧ t.IsConcrete type

theorem mem_subclassesOf_iff_exists :
    type ∈ t.subclassesOf base ↔ ∃ info, t.shape base = .cls info ∧ type ∈ info.subclasses := by
  cases hshape : t.shape base with
  | cls info => simp [subclassesOf, hshape]
  | _ => simp [subclassesOf, hshape]

section

variable (hf : t.Founded)
include hf

/-- A direct subclass names the class as its parent. -/
theorem Founded.mem_subclassesOf_iff : type ∈ t.subclassesOf base ↔
      (∃ info, t.shape base = .cls info) ∧ t.parentOf? type = some base := by
  rw [parentOf?_eq_some_iff, mem_subclassesOf_iff_exists]
  constructor
  · rintro ⟨info, hshape, hmem⟩
    exact ⟨⟨info, hshape⟩, (hf.children base type info hshape).1 hmem⟩
  · rintro ⟨⟨info, hshape⟩, hparent⟩
    exact ⟨info, hshape, (hf.children base type info hshape).2 hparent⟩

theorem Founded.known_of_mem_subclassesOf (h : type ∈ t.subclassesOf base) :
    t.Known type ∧ base.index < type.index := by
  obtain ⟨info, hshape, hparent⟩ := parentOf?_eq_some_iff.1 (hf.mem_subclassesOf_iff.1 h).2
  obtain ⟨hk, hbelow⟩ := hf.below_of_shape hshape (by simp)
  exact ⟨hk, hbelow base hparent⟩

/-- The walk downwards adds what is reached from its start. -/
theorem mem_descendantsWithin {depth : Nat} {found : List TypeId}
    (hd : t.size < depth + base.index) :
    type ∈ t.descendantsWithin depth found base ↔ type ∈ found ∨ t.Realizes base type := by
  induction depth generalizing base found with
  | zero =>
    have hk : ¬ t.Known base := by
      rw [Known]
      omega
    have hnone : ¬ t.Realizes base type := by
      rintro ⟨hbelow, hconcrete⟩
      rcases hbelow.cases_head with rfl | ⟨next, hnext, -⟩
      · obtain ⟨info, hshape, -⟩ := hconcrete
        exact hk (known_of_shape_ne (by simp [hshape]))
      · obtain ⟨info, hshape⟩ := (hf.mem_subclassesOf_iff.1 hnext).1
        exact hk (known_of_shape_ne (by simp [hshape]))
    simp [descendantsWithin, hnone]
  | succ depth ih =>
    -- What is reached is the class itself or reached from a direct subclass.
    have hstep : t.Realizes base type ↔
        (base = type ∧ t.IsConcrete type) ∨
          ∃ next ∈ t.subclassesOf base, t.Realizes next type := by
      constructor
      · rintro ⟨hbelow, hconcrete⟩
        rcases hbelow.cases_head with rfl | ⟨next, hnext, hrest⟩
        · exact Or.inl ⟨rfl, hconcrete⟩
        · exact Or.inr ⟨next, hnext, hrest, hconcrete⟩
      · rintro (⟨rfl, hconcrete⟩ | ⟨next, hnext, hrest, hconcrete⟩)
        · exact ⟨.refl, hconcrete⟩
        · exact ⟨.head hnext hrest, hconcrete⟩
    rw [hstep, descendantsWithin]
    cases hshape : t.shape base with
    | cls info =>
      have hsubclasses : t.subclassesOf base = info.subclasses := by
        rw [subclassesOf, hshape]
      have hnext : ∀ next ∈ info.subclasses, ∀ found,
          type ∈ t.descendantsWithin depth found next ↔ type ∈ found ∨ t.Realizes next type := by
        intro next hnext found
        rw [← hsubclasses] at hnext
        have hlt := (hf.known_of_mem_subclassesOf hnext).2
        exact ih (by omega)
      have hself : base = type ∧ t.IsConcrete type ↔ type = base ∧ info.isAbstract = false := by
        constructor
        · rintro ⟨rfl, info', hinfo, habstract⟩
          rw [hshape] at hinfo
          obtain rfl := Shape.cls.inj hinfo
          exact ⟨rfl, habstract⟩
        · rintro ⟨rfl, habstract⟩
          exact ⟨rfl, info, hshape, habstract⟩
      rw [mem_foldl_iff hnext, hsubclasses, hself]
      cases habstract : info.isAbstract with
      | true => simp
      | false => simp [mem_addNew, or_assoc]
    | _ =>
      have hself : ¬ (base = type ∧ t.IsConcrete type) := by
        rintro ⟨rfl, info, hinfo, -⟩
        simp [hshape] at hinfo
      simp [subclassesOf, hshape, hself]

theorem mem_descendants : type ∈ t.descendants base ↔ t.Realizes base type := by
  rw [descendants, mem_descendantsWithin hf (by omega)]
  simp

/-- The concrete types of a hierarchy are the concrete classes at or below its base. -/
theorem mem_concreteTypes_hierarchy {hierarchy : TypeId}
    (hshape : t.shape hierarchy = .hierarchy base) :
    type ∈ t.concreteTypes hierarchy ↔ t.Realizes base type := by
  rw [concreteTypes, hshape]
  simp only [addConcrete, hshape]
  rw [mem_descendantsWithin hf (by omega)]
  simp

end

/-! ## Tables without new classes -/

/-- A table with the same classes has the same classes below every base. -/
theorem realizes_iff_of_shape
    (h : ∀ type info, t'.shape type = .cls info ↔ t.shape type = .cls info) :
    t'.Realizes base type ↔ t.Realizes base type := by
  have hrel : t'.StandsBelow = t.StandsBelow := by
    rw [StandsBelow, StandsBelow]
    congr 1
    funext above below
    simp only [mem_subclassesOf_iff_exists, h]
  simp only [Realizes, hrel, IsConcrete, h]

theorem Extends.realizes_iff (h : t.Extends t') : t'.Realizes base type ↔ t.Realizes base type :=
  realizes_iff_of_shape fun _ => h.shape_cls_iff

/-! ## A new class -/

section

variable (h : Declares t t' cls parent)
include h

theorem Declares.subclassesOf_of_ne (hf : t.Founded) (hmem : type ∈ t'.subclassesOf base)
    (hne : type ≠ cls) : type ∈ t.subclassesOf base := by
  have hf' := h.founded hf
  obtain ⟨⟨info, hshape⟩, hparent⟩ := hf'.mem_subclassesOf_iff.1 hmem
  rw [parentOf?_eq_some_iff, h.names_parent_iff] at hparent
  rcases hparent with hparent | ⟨heq, -⟩
  · obtain ⟨childInfo, hchild, habove⟩ := hparent
    obtain ⟨hk, hlt⟩ := hf.below_of_shape hchild (by simp)
    have hbase : t.Known base := (hlt base habove).trans hk
    have hgrows := h.shape_grows hbase
    rw [hshape] at hgrows
    refine hf.mem_subclassesOf_iff.2 ⟨?_, parentOf?_eq_some_iff.2 ⟨childInfo, hchild, habove⟩⟩
    generalize t.shape base = old at hgrows
    cases hgrows with
    | same | cls => exact ⟨_, rfl⟩
  · exact absurd heq hne

/-- Every class other than the new one is reached from the same bases as before. -/
theorem Declares.standsBelow_of_ne (hf : t.Founded) (hbelow : t'.StandsBelow base type)
    (hne : type ≠ cls) : t.StandsBelow base type := by
  induction hbelow with
  | refl => exact .refl
  | tail hrest hstep ih =>
    rename_i middle last
    have hstep' := h.subclassesOf_of_ne hf hstep hne
    refine .tail (ih ?_) hstep'
    rintro rfl
    obtain ⟨⟨info, hshape⟩, -⟩ := hf.mem_subclassesOf_iff.1 hstep'
    exact h.not_known (known_of_shape_ne (by simp [hshape]))

theorem Declares.isConcrete_of_ne (hconcrete : t'.IsConcrete type) (hne : type ≠ cls) :
    t.IsConcrete type := by
  obtain ⟨info, hshape, habstract⟩ := hconcrete
  have hk' : t'.Known type := known_of_shape_ne (by simp [hshape])
  have hk : t.Known type := (h.known_iff.1 hk').resolve_right hne
  have hgrows := h.shape_grows hk
  rw [hshape] at hgrows
  rw [IsConcrete]
  generalize t.shape type = old at hgrows
  cases hgrows with
  | same | cls info => exact ⟨info, rfl, habstract⟩

/-- What a declaration adds below a base is the new class. -/
theorem Declares.realizes_cases (hf : t.Founded) (hrealizes : t'.Realizes base type) :
    t.Realizes base type ∨ type = cls := by
  by_cases hne : type = cls
  · exact Or.inr hne
  · exact Or.inl ⟨h.standsBelow_of_ne hf hrealizes.1 hne, h.isConcrete_of_ne hrealizes.2 hne⟩

end

/-! ## Ancestors -/

theorem parent?_of_parentOf? {above : TypeId} (h : t.parentOf? type = some above) :
    t.parent? type = some above := by
  obtain ⟨info, hshape, hparent⟩ := parentOf?_eq_some_iff.1 h
  rw [parent?, parentWithin, hshape]
  exact hparent

/-- What stands below a base stays there. -/
theorem Grows.standsBelow (h : t.Grows t') (hbelow : t.StandsBelow base type) :
    t'.StandsBelow base type := by
  induction hbelow with
  | refl => exact .refl
  | @tail above below _ hstep ih =>
    refine ih.tail ?_
    obtain ⟨info, hshape, hmem⟩ := mem_subclassesOf_iff_exists.1 hstep
    have hgrows := h.shape above (known_of_shape_ne (by simp [hshape]))
    rw [hshape] at hgrows
    generalize hlater : t'.shape above = later at hgrows
    cases hgrows with
    | same => exact (mem_subclassesOf hlater).2 hmem
    | cls _ more => exact (mem_subclassesOf hlater).2 (List.mem_append_left _ hmem)

theorem mem_chainWithin_of_standsBelow {depth : Nat} (hf : t.Founded) (hd : type.index < depth)
    (h : t.StandsBelow base type) : base ∈ t.chainWithin depth type := by
  induction h generalizing depth with
  | refl =>
    obtain _ | depth := depth
    · cases hd
    · rw [chainWithin]
      exact List.mem_cons_self
  | tail hrest hstep ih =>
    rename_i middle last
    obtain _ | depth := depth
    · cases hd
    · have hlt := (hf.known_of_mem_subclassesOf hstep).2
      have hparent := parent?_of_parentOf? (hf.mem_subclassesOf_iff.1 hstep).2
      rw [chainWithin, hparent]
      exact List.mem_cons_of_mem _ (ih (by omega))

/-- A class that is reached from another one has it among its ancestors. -/
theorem mem_ancestors_of_standsBelow (hf : t.Founded) (h : t.StandsBelow base type)
    (hne : base ≠ type) : base ∈ (t.ancestors type).drop 1 := by
  rcases h.cases_tail with heq | ⟨middle, hrest, hstep⟩
  · exact absurd heq.symm hne
  · obtain ⟨hk, hlt⟩ := hf.known_of_mem_subclassesOf hstep
    obtain ⟨info, hshape, hparent⟩ := parentOf?_eq_some_iff.1 (hf.mem_subclassesOf_iff.1 hstep).2
    have habove : t.above? type = some middle := by simp [above?, hshape, hparent]
    rw [ancestors, habove]
    exact mem_chainWithin_of_standsBelow hf (hlt.trans hk) hrest

end Callsite.TypeTable
