import Callsite.Proofs.Types.Merging

/-!
# Tables with more hierarchies and unions

Joining and narrowing types adds hierarchies and unions to the table and changes
nothing else: no shape, no constant and no method.
-/

namespace Callsite

variable {shape : Shape}

/-- A later table with more hierarchies and unions, and nothing else. -/
structure TypeTable.Widens (t t' : TypeTable) : Prop where
  size_le : t.size ≤ t'.size
  shape_eq : ∀ type, t.Known type → t'.shape type = t.shape type
  shape_new :
    ∀ type, t'.Known type → ¬ t.Known type →
      (∃ base, t'.shape type = .hierarchy base) ∨ ∃ members, t'.shape type = .union members
  constants_eq : t'.constants = t.constants
  methods_eq : t'.methods = t.methods

namespace TypeTable.Widens

variable {t t' t'' : TypeTable} {type above : TypeId}

theorem refl (t : TypeTable) : t.Widens t where
  size_le := Nat.le_refl _
  shape_eq := fun _ _ => rfl
  shape_new := fun _ hk hnew => absurd hk hnew
  constants_eq := rfl
  methods_eq := rfl

variable (h : t.Widens t')
include h

theorem known (hk : t.Known type) : t'.Known type :=
  hk.trans_le h.size_le

theorem trans (h' : t'.Widens t'') : t.Widens t'' where
  size_le := h.size_le.trans h'.size_le
  shape_eq := fun type hk => (h'.shape_eq type (h.known hk)).trans (h.shape_eq type hk)
  shape_new := by
    intro type hk hnew
    by_cases hk' : t'.Known type
    · rw [h'.shape_eq type hk']
      exact h.shape_new type hk' hnew
    · exact h'.shape_new type hk hk'
  constants_eq := h'.constants_eq.trans h.constants_eq
  methods_eq := h'.methods_eq.trans h.methods_eq

theorem grows : t.Grows t' where
  size_le := h.size_le
  shape := fun type hk => by
    rw [h.shape_eq type hk]
    exact .same _
  methods_le := Nat.le_of_eq (by rw [h.methods_eq])
  method := fun _ _ => by rw [method, method, h.methods_eq]

theorem method_eq (id : MethodId) : t'.method id = t.method id := by
  rw [method, method, h.methods_eq]

/-- A type has the shape it had, or is a new hierarchy or union. -/
theorem shape_cases (type : TypeId) :
    t'.shape type = t.shape type ∨ t.shape type = .noReturn ∧
      ((∃ base, t'.shape type = .hierarchy base) ∨ ∃ members, t'.shape type = .union members) := by
  by_cases hk : t.Known type
  · exact Or.inl (h.shape_eq type hk)
  · rw [shape_of_not_known hk]
    by_cases hk' : t'.Known type
    · exact Or.inr ⟨rfl, h.shape_new type hk' hk⟩
    · exact Or.inl (shape_of_not_known hk')

/-- Shapes other than hierarchies and unions are where they were. -/
theorem shape_iff (hhierarchy : ∀ base, shape ≠ .hierarchy base)
    (hunion : ∀ members, shape ≠ .union members) (hnoReturn : shape ≠ .noReturn) :
    t'.shape type = shape ↔ t.shape type = shape := by
  rcases h.shape_cases type with hsame | ⟨hold, ⟨base, hshape⟩ | ⟨members, hshape⟩⟩
  · rw [hsame]
  · simp [hold, hshape, (hhierarchy base).symm, hnoReturn.symm]
  · simp [hold, hshape, (hunion members).symm, hnoReturn.symm]

theorem shape_cls_iff (info : ClassInfo) : t'.shape type = .cls info ↔ t.shape type = .cls info :=
  h.shape_iff (by simp) (by simp) (by simp)

theorem above?_eq (type : TypeId) : t'.above? type = t.above? type := by
  rcases h.shape_cases type with hsame | ⟨hold, ⟨base, hshape⟩ | ⟨members, hshape⟩⟩
  · rw [above?, above?, hsame]
  · rw [above?, above?, hold, hshape]
  · rw [above?, above?, hold, hshape]

theorem overClasses (hc : t.OverClasses) : t'.OverClasses := by
  intro type above habove
  rw [h.above?_eq] at habove
  obtain ⟨info, hshape⟩ := hc type above habove
  exact ⟨info, (h.shape_cls_iff info).2 hshape⟩

theorem isAbstract_eq (type : TypeId) : t'.isAbstract type = t.isAbstract type := by
  rcases h.shape_cases type with hsame | ⟨hold, ⟨base, hshape⟩ | ⟨members, hshape⟩⟩
  · rw [isAbstract, isAbstract, hsame]
  · rw [isAbstract, isAbstract, hold, hshape]
  · rw [isAbstract, isAbstract, hold, hshape]

/-- The only types found anew are hierarchies and unions. -/
theorem find?_eq (hhierarchy : ∀ base, shape ≠ .hierarchy base)
    (hunion : ∀ members, shape ≠ .union members) (hnoReturn : shape ≠ .noReturn) :
    t'.find? shape = t.find? shape := by
  have hshape : ∀ type, t'.shape type = shape ↔ t.shape type = shape :=
    fun _ => h.shape_iff hhierarchy hunion hnoReturn
  have hknown : ∀ type, t'.shape type = shape → t.Known type := by
    intro type hs
    exact known_of_shape_ne (by rw [(hshape type).1 hs]; exact hnoReturn)
  apply Option.ext
  intro type
  rw [find?_eq_some_iff, find?_eq_some_iff]
  simp only [ne_eq, hshape]
  constructor
  · rintro ⟨-, hs, hbefore⟩
    exact ⟨hknown type ((hshape type).2 hs), hs, hbefore⟩
  · rintro ⟨hk, hs, hbefore⟩
    exact ⟨h.known hk, hs, hbefore⟩

theorem shape_hierarchy {base : TypeId} (hs : t.shape type = .hierarchy base) :
    t'.shape type = .hierarchy base :=
  h.grows.shape_hierarchy hs

end TypeTable.Widens

namespace TypeTable

variable {t : TypeTable} {types members : List TypeId}

theorem intern_widens (h : (∃ base, shape = .hierarchy base) ∨ ∃ members, shape = .union members) :
    t.Widens (intern shape t).2 := by
  cases hfind : t.find? shape with
  | some type =>
    rw [intern_of_find? hfind]
    exact .refl t
  | none =>
    rw [intern_of_find?_eq_none hfind]
    refine ⟨by simp, fun type hk => push_shape_of_known shape hk, ?_, rfl, rfl⟩
    intro type hk hnew
    obtain rfl := ((known_push_iff shape).1 hk).resolve_left hnew
    rw [push_shape_new]
    exact h

theorem hierarchy_widens (base : TypeId) : t.Widens (hierarchy base t).2 :=
  intern_widens (Or.inl ⟨base, rfl⟩)

theorem mergeMembers_widens (steps : Nat) (members : List TypeId) (t : TypeTable) :
    t.Widens (mergeMembers steps members t).2 := by
  induction steps generalizing members t with
  | zero => exact .refl t
  | succ steps ih =>
    rw [mergeMembers_succ]
    split
    next => exact .refl t
    next front base others _ => exact (hierarchy_widens base).trans (ih _ _)

theorem ofMembers_widens (members : List TypeId) (t : TypeTable) :
    t.Widens (ofMembers members t).2 := by
  rw [ofMembers.eq_def]
  split
  next => exact .refl t
  next => exact .refl t
  next => exact intern_widens (Or.inr ⟨_, rfl⟩)

theorem unionOf_widens (types : List TypeId) (t : TypeTable) : t.Widens (unionOf types t).2 :=
  (mergeMembers_widens _ _ t).trans (ofMembers_widens _ _)

end TypeTable

end Callsite
