import Callsite.Types.Declare
import Mathlib.Tactic.Common

/-!
# Growing tables of types

A table only grows: types keep their number, and what a number means changes in
two ways only, a class gains subclasses and a library gains functions.  A table
is founded when every shape refers to types that stand before it, so that walks
up the ancestors end.
-/

namespace Callsite

variable {shape : Shape} {base type : TypeId} {t' t : TypeTable}

/-- What may become of a shape: a class gains subclasses, a library other functions. -/
inductive Shape.Grows : Shape → Shape → Prop
  | same (shape : Shape) : Grows shape shape
  | cls (info : ClassInfo) (more : List TypeId) :
      Grows (.cls info) (.cls { info with subclasses := info.subclasses ++ more })
  | library (info : LibraryInfo) (externals : List External) :
      Grows (.library info) (.library { info with externals })

namespace Shape.Grows

variable {a b c : Shape}

theorem trans (hab : a.Grows b) (hbc : b.Grows c) : a.Grows c := by
  cases hab with
  | same => exact hbc
  | cls info more =>
    cases hbc with
    | same => exact .cls info more
    | cls _ more' =>
      simpa [List.append_assoc] using Grows.cls info (more ++ more')
  | library info externals =>
    cases hbc with
    | same => exact .library info externals
    | library _ externals' => exact .library info externals'

/-- Shapes that are neither classes nor libraries stay as they are. -/
theorem eq_of_fixed (h : a.Grows b) (hcls : ∀ info, b ≠ .cls info)
    (hlibrary : ∀ info, b ≠ .library info) : b = a := by
  cases h with
  | same => rfl
  | cls info more => exact absurd rfl (hcls _)
  | library info externals => exact absurd rfl (hlibrary _)

theorem fixed_of_eq (h : a.Grows b) (hcls : ∀ info, a ≠ .cls info)
    (hlibrary : ∀ info, a ≠ .library info) : b = a := by
  cases h with
  | same => rfl
  | cls info more => exact absurd rfl (hcls _)
  | library info externals => exact absurd rfl (hlibrary _)

end Shape.Grows

namespace TypeTable

def Known (t : TypeTable) (type : TypeId) : Prop :=
  type.index < t.size

instance (t : TypeTable) (type : TypeId) : Decidable (t.Known type) :=
  inferInstanceAs (Decidable (type.index < t.size))

/-- A later table: numbers keep their meaning, and methods theirs. -/
structure Grows (t t' : TypeTable) : Prop where
  size_le : t.size ≤ t'.size
  shape : ∀ type, t.Known type → (t.shape type).Grows (t'.shape type)
  methods_le : t.methods.size ≤ t'.methods.size
  method : ∀ id : MethodId, id.index < t.methods.size → t'.method id = t.method id

namespace Grows

variable {t t' t'' : TypeTable} {type : TypeId}

theorem refl (t : TypeTable) : t.Grows t where
  size_le := Nat.le_refl _
  shape := fun _ _ => .same _
  methods_le := Nat.le_refl _
  method := fun _ _ => rfl

theorem known (h : t.Grows t') (hk : t.Known type) : t'.Known type :=
  Nat.lt_of_lt_of_le hk h.size_le

theorem trans (h : t.Grows t') (h' : t'.Grows t'') : t.Grows t'' where
  size_le := Nat.le_trans h.size_le h'.size_le
  shape := fun type hk => (h.shape type hk).trans (h'.shape type (h.known hk))
  methods_le := Nat.le_trans h.methods_le h'.methods_le
  method := fun id hid =>
    (h'.method id (Nat.lt_of_lt_of_le hid h.methods_le)).trans (h.method id hid)

end Grows

/-! ## Reading a table that was changed -/

variable {t : TypeTable} {type : TypeId}

theorem shape_of_not_known (h : ¬ t.Known type) : t.shape type = .noReturn := by
  have hnone : t.shapes[type.index]? = none := by
    rw [Array.getElem?_eq_none_iff]
    exact Nat.le_of_not_lt h
  simp [shape, hnone]

theorem known_of_shape_ne (h : t.shape type ≠ .noReturn) : t.Known type := by
  by_contra hk
  exact h (shape_of_not_known hk)

theorem shape_eq_getElem (h : type.index < t.shapes.size) :
    t.shape type = t.shapes[type.index] := by
  simp [shape, h]

section

variable (shape : Shape)

@[simp] theorem push_fst (t : TypeTable) : (push shape t).1 = ⟨t.size⟩ := rfl

@[simp] theorem push_size (t : TypeTable) : (push shape t).2.size = t.size + 1 := by
  simp [push, size]

theorem known_push_iff : (push shape t).2.Known type ↔ t.Known type ∨ type = ⟨t.size⟩ := by
  cases type
  simp only [Known, push_size, Nat.lt_succ_iff_lt_or_eq, TypeId.mk.injEq]

theorem push_shape_of_ne (h : type ≠ ⟨t.size⟩) : (push shape t).2.shape type = t.shape type := by
  have hne : type.index ≠ t.shapes.size := fun heq => h (congrArg TypeId.mk heq)
  simp [push, TypeTable.shape, Array.getElem?_push, hne]

theorem push_shape_of_known (h : t.Known type) : (push shape t).2.shape type = t.shape type :=
  push_shape_of_ne shape fun heq => Nat.ne_of_lt h (congrArg TypeId.index heq)

@[simp] theorem push_shape_new (t : TypeTable) : (push shape t).2.shape ⟨t.size⟩ = shape := by
  simp [push, TypeTable.shape, size]

end

@[simp] theorem updateShape_size (type : TypeId) (f : Shape → Shape) (t : TypeTable) :
    (updateShape type f t).2.size = t.size := by
  simp [updateShape, size, modify, modifyGet, MonadStateOf.modifyGet, StateT.modifyGet, pure]

theorem updateShape_shape (other : TypeId) (f : Shape → Shape) (h : t.Known other) :
    (updateShape type f t).2.shape other
      = if type = other then f (t.shape other) else t.shape other := by
  have hlt : other.index < t.shapes.size := h
  by_cases heq : type = other
  · subst heq
    simp [updateShape, shape, modify, modifyGet, MonadStateOf.modifyGet, StateT.modifyGet, pure,
      hlt, Array.getElem_modify]
  · have hne : type.index ≠ other.index := by
      intro hindex
      exact heq (by cases type; cases other; simp_all)
    simp [updateShape, shape, modify, modifyGet, MonadStateOf.modifyGet, StateT.modifyGet, pure,
      Array.getElem?_modify, heq, hne]

/-- A change in place changes one shape at most. -/
theorem updateShape_shape_or (type other : TypeId) (f : Shape → Shape) (t : TypeTable) :
    (updateShape type f t).2.shape other = f (t.shape other) ∨
      (updateShape type f t).2.shape other = t.shape other := by
  by_cases hk : t.Known other
  · rw [updateShape_shape other f hk]
    split
    · exact Or.inl rfl
    · exact Or.inr rfl
  · have hk' : ¬ (updateShape type f t).2.Known other := by simpa [Known] using hk
    exact Or.inr ((shape_of_not_known hk').trans (shape_of_not_known hk).symm)

/-! ## Finding a shape -/

/-- What has been interned is found again. -/
theorem intern_of_find? (h : t.find? shape = some type) : intern shape t = (type, t) := by
  simp [intern, h]

theorem intern_of_find?_eq_none (h : t.find? shape = none) : intern shape t = push shape t := by
  simp [intern, h]

theorem find?_eq_some_iff :
    t.find? shape = some type ↔
      t.Known type ∧ t.shape type = shape ∧ ∀ j < type.index, t.shape ⟨j⟩ ≠ shape := by
  have hread : ∀ (j : Nat) (hj : j < t.shapes.size), t.shape ⟨j⟩ = t.shapes[j] :=
    fun j hj => shape_eq_getElem hj
  constructor
  · intro h
    obtain ⟨i, hi, rfl⟩ := Option.map_eq_some_iff.1 h
    obtain ⟨hlt, heq, hbefore⟩ := List.findIdx?_eq_some_iff_getElem.1 hi
    have hsize : i < t.shapes.size := by simpa using hlt
    refine ⟨hsize, ?_, ?_⟩
    · rw [hread i hsize]
      simpa using heq
    · intro j hj
      have hjsize : j < t.shapes.size := Nat.lt_trans hj hsize
      rw [hread j hjsize]
      simpa using hbefore j hj
  · rintro ⟨hk, hshape, hbefore⟩
    have hsize : type.index < t.shapes.size := hk
    refine Option.map_eq_some_iff.2 ⟨type.index, ?_, rfl⟩
    refine List.findIdx?_eq_some_iff_getElem.2 ⟨by simpa using hsize, ?_, ?_⟩
    · rw [shape_eq_getElem hsize] at hshape
      simpa using hshape
    · intro j hj
      have hjsize : j < t.shapes.size := Nat.lt_trans hj hsize
      have hne := hbefore j hj
      rw [hread j hjsize] at hne
      simpa using hne

theorem find?_eq_none_iff : t.find? shape = none ↔ ∀ type, t.Known type → t.shape type ≠ shape := by
  constructor
  · intro h type hk heq
    have hnone := List.findIdx?_eq_none_iff.1 (Option.map_eq_none_iff.1 h)
    have hsize : type.index < t.shapes.size := hk
    have hmem : t.shapes[type.index] ∈ t.shapes.toList := by simp
    rw [shape_eq_getElem hsize] at heq
    simpa [heq] using hnone _ hmem
  · intro h
    cases hfind : t.find? shape with
    | none => rfl
    | some type =>
      obtain ⟨hk, heq, -⟩ := find?_eq_some_iff.1 hfind
      exact absurd heq (h type hk)

theorem Grows.shape_fixed (h : t.Grows t') (hshape : t.shape type = shape)
    (hne : shape ≠ .noReturn) (hcls : ∀ info, shape ≠ .cls info)
    (hlibrary : ∀ info, shape ≠ .library info) : t'.shape type = shape := by
  subst hshape
  exact (h.shape type (known_of_shape_ne hne)).fixed_of_eq hcls hlibrary

/-- A class stays a class, with more subclasses. -/
theorem Grows.shape_cls {info : ClassInfo} (h : t.Grows t') (hshape : t.shape type = .cls info) :
    ∃ more, t'.shape type = .cls { info with subclasses := info.subclasses ++ more } := by
  have hgrows := h.shape type (known_of_shape_ne (by simp [hshape]))
  rw [hshape] at hgrows
  generalize t'.shape type = later at hgrows ⊢
  cases hgrows with
  | same => exact ⟨[], by simp⟩
  | cls _ more => exact ⟨more, rfl⟩

theorem Grows.exists_cls (h : t.Grows t') (hcls : ∃ info, t.shape type = .cls info) :
    ∃ info, t'.shape type = .cls info := by
  obtain ⟨_, hshape⟩ := hcls
  obtain ⟨more, hlater⟩ := h.shape_cls hshape
  exact ⟨_, hlater⟩

/-- A shape that is no declaration is found at the same place in every later table. -/
theorem Grows.find?_eq_some (h : t.Grows t') (hcls : ∀ info, shape ≠ .cls info)
    (hlibrary : ∀ info, shape ≠ .library info) (hfind : t.find? shape = some type) :
    t'.find? shape = some type := by
  obtain ⟨hk, hshape, hbefore⟩ := find?_eq_some_iff.1 hfind
  refine find?_eq_some_iff.2 ⟨h.known hk, ?_, ?_⟩
  · have hgrows := h.shape type hk
    rw [hshape] at hgrows
    exact hgrows.fixed_of_eq hcls hlibrary
  · intro j hj heq
    have hgrows := h.shape ⟨j⟩ (Nat.lt_trans hj hk)
    rw [heq] at hgrows
    exact hbefore j hj (hgrows.eq_of_fixed hcls hlibrary).symm

end TypeTable

/-! ## Founded tables -/

/-- What a shape is made of stands before the position `bound`. -/
def Shape.Below (bound : Nat) : Shape → Prop
  | .cls info => ∀ parent, info.parent = some parent → parent.index < bound
  | .metaclass type | .hierarchy type | .hierarchyMetaclass type | .applied type _ =>
    type.index < bound
  | .union members => ∀ member ∈ members, member.index < bound
  | _ => True

instance Shape.decidableBelow (bound : Nat) : (shape : Shape) → Decidable (shape.Below bound)
  | .cls info => inferInstanceAs (Decidable (∀ parent ∈ info.parent, parent.index < bound))
  | .metaclass type | .hierarchy type | .hierarchyMetaclass type | .applied type _ =>
    inferInstanceAs (Decidable (type.index < bound))
  | .union members => inferInstanceAs (Decidable (∀ member ∈ members, member.index < bound))
  | .program | .function _ _ | .library _ | .cstruct _ | .noReturn => .isTrue trivial

theorem Shape.Grows.below {a b : Shape} {bound : Nat} (h : a.Grows b) (ha : a.Below bound) :
    b.Below bound := by
  cases h with
  | same | cls | library => exact ha

/-- The functions of a library; no other type has any. -/
def Shape.externals : Shape → List External
  | .library info => info.externals
  | _ => []

namespace TypeTable

/-- A foreign function stands for a method with the same parameters and without a block. -/
structure Offers (t : TypeTable) (external : External) : Prop where
  known : external.method.index < t.methods.size
  params :
    (t.method external.method).decl.params
      = external.params.map fun param => .typed param.1 (.resolved param.2)
  blockParam : (t.method external.method).decl.blockParam = none

theorem Offers.length_eq {external : External} (h : t.Offers external) :
    (t.method external.method).decl.params.length = external.params.length := by
  rw [h.params, List.length_map]

/-- Every shape is made of types that stand before it, and a class lists exactly the classes
that name it as their parent. -/
structure Founded (t : TypeTable) : Prop where
  standard : TypeId.pointer.index < t.size
  noReturn : t.shape .noReturn = .noReturn
  below : ∀ type, t.Known type → (t.shape type).Below type.index
  children :
    ∀ parent child info, t.shape parent = .cls info →
      (child ∈ info.subclasses ↔
        ∃ childInfo, t.shape child = .cls childInfo ∧ childInfo.parent = some parent)
  slots : ∀ id ∈ t.methods.slots, id.index < t.methods.size
  externals : ∀ type, ∀ external ∈ (t.shape type).externals, t.Offers external

theorem Founded.below_of_shape {shape : Shape} (hf : t.Founded) (hshape : t.shape type = shape)
    (hne : shape ≠ .noReturn) : t.Known type ∧ shape.Below type.index := by
  have hk : t.Known type := known_of_shape_ne (by rwa [hshape])
  exact ⟨hk, hshape ▸ hf.below type hk⟩

theorem Founded.known_of_hierarchy (hf : t.Founded) (hshape : t.shape type = .hierarchy base) :
    t.Known base := by
  obtain ⟨hk, hbelow⟩ := hf.below_of_shape hshape (by simp)
  exact Nat.lt_trans hbelow hk

theorem Founded.known_of_hierarchyMetaclass (hf : t.Founded)
    (hshape : t.shape type = .hierarchyMetaclass base) : t.Known base := by
  obtain ⟨hk, hbelow⟩ := hf.below_of_shape hshape (by simp)
  exact Nat.lt_trans hbelow hk

theorem Founded.known_of_mem_union {members : List TypeId} (hf : t.Founded)
    (hshape : t.shape type = .union members) : ∀ member ∈ members, t.Known member := by
  obtain ⟨hk, hbelow⟩ := hf.below_of_shape hshape (by simp)
  exact fun member hmember => Nat.lt_trans (hbelow member hmember) hk

/-- Hierarchies stay what they are. -/
theorem Grows.shape_hierarchy (h : t.Grows t') (hshape : t.shape type = .hierarchy base) :
    t'.shape type = .hierarchy base :=
  h.shape_fixed hshape (by simp) (by simp) (by simp)

theorem Grows.shape_hierarchyMetaclass (h : t.Grows t')
    (hshape : t.shape type = .hierarchyMetaclass base) :
    t'.shape type = .hierarchyMetaclass base :=
  h.shape_fixed hshape (by simp) (by simp) (by simp)

/-- A later table without new classes. -/
structure Extends (t t' : TypeTable) : Prop where
  grows : t.Grows t'
  classes : ∀ type info, t'.shape type = .cls info → t.shape type = .cls info
  founded : t.Founded → t'.Founded

namespace Extends

variable {t t' t'' : TypeTable} {type : TypeId}

theorem refl (t : TypeTable) : t.Extends t where
  grows := .refl t
  classes := fun _ _ h => h
  founded := id

theorem trans (h : t.Extends t') (h' : t'.Extends t'') : t.Extends t'' where
  grows := h.grows.trans h'.grows
  classes := fun type info hinfo => h.classes type info (h'.classes type info hinfo)
  founded := fun hf => h'.founded (h.founded hf)

theorem known (h : t.Extends t') (hk : t.Known type) : t'.Known type :=
  h.grows.known hk

/-- Classes are the same before and after. -/
theorem shape_cls_iff (h : t.Extends t') (info : ClassInfo) :
    t'.shape type = .cls info ↔ t.shape type = .cls info := by
  refine ⟨h.classes type info, fun hinfo => ?_⟩
  obtain ⟨more, hlater⟩ := h.grows.shape_cls hinfo
  rw [hlater, ← h.classes type _ hlater, hinfo]

end Extends

end TypeTable

end Callsite
