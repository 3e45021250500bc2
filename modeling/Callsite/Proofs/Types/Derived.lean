import Callsite.Inference.Resolution
import Callsite.Proofs.Types.Unions

/-!
# Derived and declared types in growing tables

Metaclasses, applied generics, functions, libraries and structs extend the table.
-/

namespace Callsite.TypeTable

variable {t : TypeTable} {type : TypeId}

theorem metaclassOfPart_builds (hf : t.Founded) (type : TypeId) :
    Builds (metaclassOfPart type) t fun metaType t' => t.Known type → t'.Known metaType := by
  refine Builds.get_bind ?_
  split
  next base hshape =>
    have hbase : (Shape.hierarchyMetaclass base).Below t.size := hf.known_of_hierarchy hshape
    exact (intern_builds (by simp) rfl hbase).mono fun _ _ _ hfind _ => known_of_find? hfind
  next => exact Builds.pure id
  next => exact Builds.pure id
  next => exact Builds.pure id
  next _ hnoReturn _ =>
    have htype : (Shape.metaclass type).Below t.size := known_of_shape_ne hnoReturn
    exact (intern_builds (by simp) rfl htype).mono fun _ _ _ hfind _ => known_of_find? hfind

theorem metaclass_builds (hf : t.Founded) (type : TypeId) :
    Builds (metaclass type) t fun metaType t' => t.Known type → t'.Known metaType := by
  refine Builds.get_bind ?_
  split
  next members hshape =>
    have hparts : Builds (members.mapM metaclassOfPart) t
        fun parts t' => ∀ part ∈ parts, t'.Known part := by
      refine Builds.mapM ?_ members ?_
      · exact fun _ _ _ h hknown => h.known hknown
      · intro member hmember t' h
        refine (metaclassOfPart_builds (h.founded hf) member).mono fun _ _ _ hknown => ?_
        exact hknown (h.known (hf.known_of_mem_union hshape member hmember))
    refine hparts.bind fun parts t' h hknown => ?_
    exact (unionOf_builds (h.founded hf) hknown).mono fun _ _ _ hknown _ => hknown
  next => exact metaclassOfPart_builds hf type

theorem apply_builds {generic : TypeId} (hk : t.Known generic) (args : List TypeId) :
    Builds (apply generic args) t fun type t' => t'.shape type = .applied generic args := by
  have hbelow : (Shape.applied generic args).Below t.size := hk
  exact (intern_builds (by simp) rfl hbelow).mono fun _ _ _ hfind => shape_of_find? hfind

theorem pointerTo_builds (hf : t.Founded) (type : TypeId) :
    Builds (pointerTo type) t fun pointer t' => t'.shape pointer = .applied .pointer [type] :=
  apply_builds hf.standard [type]

theorem arrayOf_builds (hf : t.Founded) (type : TypeId) :
    Builds (arrayOf type) t fun array t' => t'.Known array :=
  (apply_builds (Nat.lt_trans (by decide) hf.standard) [type]).mono
    fun _ _ _ hshape => known_of_shape_ne (by simp [hshape])

theorem functionOf_builds (args : List TypeId) (result : TypeId) :
    Builds (functionOf args result) t fun type t' => t'.Known type := by
  refine Builds.get_bind ?_
  split
  next type hfind => exact Builds.pure (known_of_find? hfind)
  next =>
    have hpush : Builds (push (.function args result)) t fun type t' => t'.Known type :=
      ⟨push_extends (by simp) rfl trivial, by simp [Known]⟩
    refine hpush.bind fun type t1 _ hk => ?_
    refine (primitive_builds type _ _ _).bind fun _ t2 h2 _ => ?_
    exact Builds.pure (h2.known hk)

theorem superOwner?_builds (hf : t.Founded) (owner : TypeId) :
    Builds (superOwner? owner) t fun _ _ => True := by
  refine Builds.get_bind ?_
  split
  next instances _ =>
    split
    next parent _ => exact (metaclass_builds hf parent).map fun _ _ _ _ => True.intro
    next => exact Builds.pure True.intro
  next => exact Builds.pure True.intro
  next => exact Builds.pure True.intro

/-! ## Libraries and structs -/

theorem grows_addExternal (external : External) (shape : Shape) :
    shape.Grows (shape.addExternal external) := by
  cases shape with
  | library info => exact .library info _
  | _ => exact .same _

theorem addExternal_eq_cls_iff (external : External) (shape : Shape) (info : ClassInfo) :
    shape.addExternal external = .cls info ↔ shape = .cls info := by
  cases shape <;> simp [Shape.addExternal]

theorem mem_externals_addExternal {external other : External} {shape : Shape}
    (h : other ∈ (shape.addExternal external).externals) :
    other ∈ shape.externals ∨ other = external := by
  cases shape with
  | library info =>
    simp only [Shape.addExternal, Shape.externals, List.mem_append, List.mem_filter,
      List.mem_singleton] at h
    exact h.imp_left And.left
  | _ => exact Or.inl h

theorem declareLibrary_builds (name : String) : Builds (declareLibrary name) t fun _ _ => True := by
  refine Builds.get_bind ?_
  split
  next => exact Builds.pure True.intro
  next =>
    have hpush : Builds (push (.library ⟨name, []⟩)) t fun _ _ => True :=
      ⟨push_extends (by simp) rfl trivial, trivial⟩
    refine hpush.bind fun type t1 _ _ => ?_
    exact (bindConstant_builds name type).bind fun _ _ _ _ => Builds.pure True.intro

theorem declareExternal_builds (library : TypeId) (name : String)
    (params : List (String × TypeId)) (result : TypeId) (variadic : Bool) :
    Builds (declareExternal library name params result variadic) t fun _ _ => True := by
  refine (register_builds library _ .external).bind fun method t1 _ ⟨hknown, hdecl⟩ => ?_
  have hoffers : t1.Offers ⟨name, params, result, variadic, method⟩ := by
    refine ⟨hknown, ?_, ?_⟩
    · rw [hdecl]
      rfl
    · rw [hdecl]
      rfl
  refine (updateShape_builds ?_ ?_ ?_ library).bind fun _ _ _ _ => Builds.pure True.intro
  · exact grows_addExternal _
  · exact addExternal_eq_cls_iff _
  · intro shape external hexternal
    rcases mem_externals_addExternal hexternal with hold | rfl
    · exact Or.inl hold
    · exact Or.inr hoffers

theorem declareField_builds (struct : TypeId) (field : String) (type : TypeId) :
    Builds (declareField struct field type) t fun _ _ => True := by
  refine (primitive_builds struct field [] _).bind fun _ _ _ _ => ?_
  exact (primitive_builds struct _ _ _).bind fun _ _ _ _ => Builds.pure True.intro

theorem declareStruct_builds (hf : t.Founded) (library : TypeId) (name : String)
    (fields : List (String × TypeId)) :
    Builds (declareStruct library name fields) t fun _ _ => True := by
  refine Builds.get_bind ?_
  have hpush : Builds (push (.cstruct ⟨t.name library ++ "::" ++ name, library, fields⟩)) t
      fun _ _ => True := ⟨push_extends (by simp) rfl trivial, trivial⟩
  refine hpush.bind fun type t1 h1 _ => ?_
  refine (bindConstant_builds _ type).bind fun _ t2 h2 _ => ?_
  refine (Builds.forM fields fun field _ _ _ => declareField_builds type _ _).bind
    fun _ t3 h3 _ => ?_
  have hf3 : t3.Founded := h3.founded (h2.founded (h1.founded hf))
  refine (metaclass_builds hf3 type).bind fun metaType t4 _ _ => ?_
  exact (register_builds metaType _ .primitive).bind fun _ _ _ _ => Builds.pure True.intro

end Callsite.TypeTable
