import Callsite.Proofs.Types.Unions
import Callsite.Proofs.Range.Programs

/-!
# Tables of types in range

Every number that a table of types stores is that of a type or a method in the table: in the
shapes, among the constants and in the declarations of the methods.  What is read from such a
table is in range as well.
-/

namespace Callsite

variable {shape : Shape} {types found : List TypeId} {a : TypeId}

namespace Sizes

variable {z z' : Sizes}

instance : Ranged External where
  Within z e := z.Holds e.params ∧ z.Holds e.result ∧ z.Holds e.method
  mono hz h := ⟨h.1.mono hz, h.2.1.mono hz, h.2.2.mono hz⟩

instance (e : External) : Decidable (z.Holds e) :=
  inferInstanceAs (Decidable (z.Holds e.params ∧ z.Holds e.result ∧ z.Holds e.method))

/-- The numbers in a shape. -/
def HoldsShape (z : Sizes) : Shape → Prop
  | .program | .noReturn => True
  | .cls info => z.Holds info.parent ∧ z.Holds info.subclasses
  | .metaclass type | .hierarchy type | .hierarchyMetaclass type => z.Holds type
  | .applied generic args => z.Holds generic ∧ z.Holds args
  | .union members => z.Holds members
  | .function args result => z.Holds args ∧ z.Holds result
  | .library info => z.Holds info.externals
  | .cstruct info => z.Holds info.library ∧ z.Holds info.fields

theorem HoldsShape.mono (h : z.HoldsShape shape) (hz : z ≤ z') : z'.HoldsShape shape := by
  cases shape with
  | cls | applied | function | cstruct => exact ⟨h.1.mono hz, h.2.mono hz⟩
  | program | noReturn => trivial
  | _ => exact Holds.mono h hz

instance : Ranged Shape where
  Within := HoldsShape
  mono hz h := h.mono hz

instance : (shape : Shape) → Decidable (z.Holds shape)
  | .program | .noReturn => .isTrue trivial
  | .cls info => inferInstanceAs (Decidable (z.Holds info.parent ∧ z.Holds info.subclasses))
  | .metaclass type | .hierarchy type | .hierarchyMetaclass type =>
    inferInstanceAs (Decidable (z.Holds type))
  | .applied generic args => inferInstanceAs (Decidable (z.Holds generic ∧ z.Holds args))
  | .union members => inferInstanceAs (Decidable (z.Holds members))
  | .function args result => inferInstanceAs (Decidable (z.Holds args ∧ z.Holds result))
  | .library info => inferInstanceAs (Decidable (z.Holds info.externals))
  | .cstruct info => inferInstanceAs (Decidable (z.Holds info.library ∧ z.Holds info.fields))

theorem holds_shape : z.Holds shape ↔ z.HoldsShape shape := Iff.rfl

instance : Ranged Method where
  Within z m := z.Holds m.id ∧ z.Holds m.decl ∧ z.Holds m.owner
  mono hz h := ⟨h.1.mono hz, h.2.1.mono hz, h.2.2.mono hz⟩

instance (m : Method) : Decidable (z.Holds m) :=
  inferInstanceAs (Decidable (z.Holds m.id ∧ z.Holds m.decl.mentions ∧ z.Holds m.owner))

end Sizes

open Sizes

def TypeTable.sizes (t : TypeTable) : Sizes :=
  ⟨t.size, t.methods.size, 0, 0, 0, 0⟩

/-- Every number in a table of types is that of a type or a method in it. -/
structure TypeTable.InRange (t : TypeTable) : Prop where
  standard : TypeId.pointer.index < t.size
  primitive : 0 < t.methods.size
  allShapes : t.sizes.Holds t.shapes
  constants : t.sizes.Holds t.constants
  allMethods : t.sizes.Holds t.methods.methods
  slots : t.sizes.Holds t.methods.slots

namespace TypeTable

variable {t t' : TypeTable} {z : Sizes} {type : TypeId}

theorem holds_iff_known : t.sizes.Holds type ↔ t.Known type := Iff.rfl

theorem holds_find? (shape : Shape) : t.sizes.Holds (t.find? shape) := by
  intro type htype
  exact holds_iff_known.2 (known_of_find? htype)

/-! ## Lists of types -/

theorem holds_addNew (htypes : z.Holds types) (htype : z.Holds type) :
    z.Holds (addNew types type) := by
  rw [addNew]
  split
  · exact htypes
  · simp [htypes, htype]

theorem holds_foldl {α : Type} {f : List TypeId → α → List TypeId} {l : List α}
    (hf : ∀ found, z.Holds found → ∀ a ∈ l, z.Holds (f found a)) (hfound : z.Holds found) :
    z.Holds (l.foldl f found) := by
  induction l generalizing found with
  | nil => exact hfound
  | cons a l ih =>
    refine ih (fun found hfound b hb => hf found hfound b (List.mem_cons_of_mem a hb)) ?_
    exact hf found hfound a (by simp)

theorem holds_dropRepeats (htypes : z.Holds types) : z.Holds (dropRepeats types) := by
  fun_induction dropRepeats types with
  | case1 a rest ih => exact ih (holds_cons.1 htypes).2
  | case2 a b rest hne ih =>
    rw [holds_cons] at htypes ⊢
    exact ⟨htypes.1, ih htypes.2⟩
  | case3 short hshort => exact htypes

namespace InRange

variable (h : t.InRange)
include h

theorem holds_standard {index : Nat} (hindex : index ≤ TypeId.pointer.index) :
    t.sizes.Holds (⟨index⟩ : TypeId) :=
  hindex.trans_lt h.standard

theorem shapes (type : TypeId) : t.sizes.Holds (t.shape type) :=
  forall_getD h.allShapes _ trivial

theorem holdsShape (hs : t.shape type = shape) : t.sizes.HoldsShape shape :=
  hs ▸ h.shapes type

theorem methods (id : MethodId) : t.sizes.Holds (t.method id) := by
  refine forall_getD h.allMethods _ ⟨h.primitive, ?_, h.holds_standard (Nat.zero_le _)⟩
  exact holds_method.2 ⟨holds_nil, holds_none, holds_none⟩

theorem holds_constant? (name : String) : t.sizes.Holds (t.constant? name) :=
  Holds.lookup h.constants name

/-! ## Upwards and downwards -/

theorem holds_parentWithin (depth : Nat) (type : TypeId) :
    t.sizes.Holds (t.parentWithin depth type) := by
  induction depth generalizing type with
  | zero => exact holds_none
  | succ depth ih =>
    rw [parentWithin]
    cases hs : t.shape type with
    | cls info => exact (h.holdsShape hs).1
    | applied generic args => exact ih generic
    | _ => exact holds_none

theorem holds_parent? (type : TypeId) : t.sizes.Holds (t.parent? type) :=
  h.holds_parentWithin _ type

theorem holds_chainWithin (depth : Nat) (htype : t.sizes.Holds type) :
    t.sizes.Holds (t.chainWithin depth type) := by
  induction depth generalizing type with
  | zero => exact holds_nil
  | succ depth ih =>
    rw [chainWithin]
    cases hp : t.parent? type with
    | none => simpa using htype
    | some above => exact holds_cons.2 ⟨htype, ih (h.holds_parent? type above hp)⟩

theorem holds_ancestors (htype : t.sizes.Holds type) :
    t.sizes.Holds (t.ancestors type) := by
  have habove : t.sizes.Holds (t.above? type) := by
    rw [above?]
    cases hs : t.shape type with
    | cls info => exact (h.holdsShape hs).1
    | applied generic args => exact holds_some.2 (h.holdsShape hs).1
    | _ => exact holds_none
  rw [ancestors]
  cases ha : t.above? type with
  | none => simpa using htype
  | some above => exact holds_cons.2 ⟨htype, h.holds_chainWithin _ (habove above ha)⟩

theorem holds_descendantsWithin (depth : Nat) (hfound : t.sizes.Holds found)
    (htype : t.sizes.Holds type) :
    t.sizes.Holds (t.descendantsWithin depth found type) := by
  induction depth generalizing found type with
  | zero => exact hfound
  | succ depth ih =>
    rw [descendantsWithin]
    cases hs : t.shape type with
    | cls info =>
      refine holds_foldl (fun found hfound child hchild =>
        ih hfound ((h.holdsShape hs).2 child hchild)) ?_
      split
      · exact hfound
      · exact holds_addNew hfound htype
    | _ => exact hfound

theorem holds_addConcrete (hfound : t.sizes.Holds found) (htype : t.sizes.Holds type) :
    t.sizes.Holds (t.addConcrete found type) := by
  rw [addConcrete]
  cases hs : t.shape type with
  | hierarchy base => exact h.holds_descendantsWithin _ hfound (h.holdsShape hs)
  | hierarchyMetaclass base =>
    refine holds_foldl (fun found hfound c hc => holds_addNew hfound ?_) hfound
    obtain ⟨cls, -, hfind⟩ := List.mem_filterMap.1 hc
    exact holds_find? _ c hfind
  | _ => exact holds_addNew hfound htype

section

variable (htype : t.sizes.Holds type)
include htype

theorem holds_concreteTypes : t.sizes.Holds (t.concreteTypes type) := by
  rw [concreteTypes]
  cases hs : t.shape type with
  | union members =>
    exact holds_foldl (fun found hfound member hmember =>
      h.holds_addConcrete hfound (h.holdsShape hs member hmember)) holds_nil
  | _ => exact h.holds_addConcrete holds_nil htype

theorem holds_members : t.sizes.Holds (t.members type) := by
  rw [members]
  cases hs : t.shape type with
  | union members => exact h.holdsShape hs
  | _ => simpa using htype

theorem holds_instanceType : t.sizes.Holds (t.instanceType type) := by
  rw [instanceType]
  cases hs : t.shape type with
  | metaclass instances => exact h.holdsShape hs
  | hierarchyMetaclass base =>
    dsimp only
    cases hfind : t.find? (.hierarchy base) with
    | none => exact h.holdsShape hs
    | some found => exact holds_find? _ found hfind
  | _ => exact htype

end

theorem holds_pointee? (type : TypeId) : t.sizes.Holds (t.pointee? type) := by
  rw [pointee?]
  cases hs : t.shape type with
  | applied generic args =>
    dsimp only
    split
    · exact fun arg harg => (h.holdsShape hs).2 arg (List.mem_of_mem_head? harg)
    · exact holds_none
  | _ => exact holds_none

/-! ## Names -/

theorem holds_lookupPath (scope : TypeId) (names : List String) (global : Bool) :
    t.sizes.Holds (t.lookupPath scope names global) := by
  apply Holds.orElse
  · split
    · exact h.holds_constant? _
    · exact holds_none
  · exact h.holds_constant? _

theorem holds_typeArgument? (type : TypeId) (name : String) :
    t.sizes.Holds (t.typeArgument? type name) := by
  rw [typeArgument?]
  cases hs : t.shape (t.instanceType type) with
  | applied generic args =>
    intro arg harg
    obtain ⟨index, -, hindex⟩ := Option.bind_eq_some_iff.1 harg
    exact (h.holdsShape hs).2 arg (List.mem_of_getElem? hindex)
  | _ => exact holds_none

theorem holds_meaning? (owner : TypeId) (name : String) :
    t.sizes.Holds (t.meaning? owner name) := by
  rw [meaning?]
  split
  · exact h.holds_typeArgument? owner name
  · exact h.holds_lookupPath _ _ _

theorem holds_pathType? (owner : TypeId) {free : Bindings} (hfree : t.sizes.Holds free)
    (names : List String) (global : Bool) :
    t.sizes.Holds (t.pathType? owner free names global) := by
  apply Holds.orElse
  · split
    · exact (hfree.get? _).orElse (h.holds_typeArgument? _ _)
    · exact holds_none
  · exact h.holds_lookupPath _ _ _

/-! ## Methods -/

section

variable (owner : TypeId) (name : String)

theorem holds_own : t.sizes.Holds (t.methods.own owner name) :=
  h.slots.filter _

theorem holds_methodsNamed : t.sizes.Holds (t.methodsNamed owner name) := by
  have hflatMap : ∀ chain : List TypeId,
      t.sizes.Holds (chain.flatMap (t.methods.own · name)) := by
    intro chain id hid
    obtain ⟨type, -, hmem⟩ := List.mem_flatMap.1 hid
    exact h.holds_own type name id hmem
  rw [methodsNamed]
  split
  · exact holds_nil
  · refine holds_append.2 ⟨h.holds_own _ name, ?_⟩
    split
    · exact (hflatMap _).filter _
    · exact hflatMap _

theorem holds_fittingMethods (arity : Nat) (hasBlock : Bool) :
    t.sizes.Holds (t.fittingMethods owner name arity hasBlock) :=
  (h.holds_methodsNamed owner name).filter _

end

/-! ## Unions -/

theorem holds_flatten (htypes : t.sizes.Holds types) : t.sizes.Holds (t.flatten types) := by
  refine holds_foldl (fun found hfound type htype => ?_) holds_nil
  cases hs : t.shape type with
  | union members =>
    exact holds_foldl (fun found hfound member hmember =>
      holds_addNew hfound (h.holdsShape hs member hmember)) hfound
  | _ => exact holds_addNew hfound (htypes type htype)

theorem holds_commonBase? {b : TypeId} (ha : t.sizes.Holds a) :
    t.sizes.Holds (t.commonBase? a b) := by
  have hmerge : t.sizes.Holds (t.mergeClass? a) := by
    rw [mergeClass?]
    cases hs : t.shape a with
    | cls info =>
      dsimp only
      split
      · exact holds_some.2 ha
      · exact holds_none
    | hierarchy base => exact holds_some.2 (h.holdsShape hs)
    | _ => exact holds_none
  intro base hbase
  obtain ⟨ca, hca, hbase⟩ := Option.bind_eq_some_iff.1 hbase
  obtain ⟨cb, -, hbase⟩ := Option.bind_eq_some_iff.1 hbase
  obtain ⟨found, hfound, hbase⟩ := Option.bind_eq_some_iff.1 hbase
  split at hbase
  · simp at hbase
  · obtain rfl := Option.some.inj hbase
    exact h.holds_ancestors (hmerge ca hca) found (List.mem_of_find?_eq_some hfound)

theorem holds_firstMerge? {members : List TypeId} (hmembers : t.sizes.Holds members) :
    t.sizes.Holds (t.firstMerge? members) := by
  rintro ⟨front, base, others⟩ hmerge
  obtain ⟨⟨a, ha, b, -, hbase⟩, hothers⟩ := firstMerge?_mem hmerge
  have hkept : t.sizes.Holds base := h.holds_commonBase? (b := b) (hmembers a ha) base hbase
  exact ⟨fun x hx => hmembers x (hothers x (Or.inl hx)), hkept,
    fun x hx => hmembers x (hothers x (Or.inr hx))⟩

end InRange

end TypeTable

end Callsite
