import Callsite.Proofs.Types.Regular

/-!
# One type for each shape

However declarations and type constructors follow each other, a structural shape stands at one
place of the table, stays there for good, and is in normal form if it is a union.  So types can
be compared by their numbers.
-/

namespace Callsite.TypeTable

open Relation (ReflTransGen)

variable {t t' : TypeTable}

/-- One declaration or one type constructor, applied to types of the table. -/
inductive Step (t : TypeTable) : TypeTable → Prop
  | declareClass (name : String) (parent : Option TypeId) (isAbstract : Bool)
      (typeVars : List String) (hk : ∀ above, parent = some above → t.Known above) :
      Step t (declareClass name parent isAbstract typeVars t).2
  | declareLibrary (name : String) : Step t (declareLibrary name t).2
  | declareExternal (library : TypeId) (name : String) (params : List (String × TypeId))
      (result : TypeId) (variadic : Bool) :
      Step t (declareExternal library name params result variadic t).2
  | declareStruct (library : TypeId) (name : String) (fields : List (String × TypeId)) :
      Step t (declareStruct library name fields t).2
  | register (owner : TypeId) (decl : MethodDecl) (origin : Origin) :
      Step t (register owner decl origin t).2
  | metaclass {type : TypeId} (hk : t.Known type) : Step t (metaclass type t).2
  | hierarchy {base : TypeId} (hk : t.Known base) : Step t (hierarchy base t).2
  | apply {generic : TypeId} (hk : t.Known generic) (args : List TypeId) :
      Step t (apply generic args t).2
  | functionOf (args : List TypeId) (result : TypeId) : Step t (functionOf args result t).2
  | unionOf {types : List TypeId} (hk : ∀ type ∈ types, t.Known type) :
      Step t (unionOf types t).2

/-- Any sequence of declarations and type constructors. -/
def Becomes : TypeTable → TypeTable → Prop :=
  ReflTransGen Step

theorem Step.reached (h : t.Step t') (hr : t.Reached) : t'.Reached := by
  cases h with
  | declareClass name parent isAbstract typeVars hk =>
    exact hr.declareClass name parent isAbstract typeVars hk
  | declareLibrary name => exact hr.declareLibrary name
  | declareExternal library name params result variadic =>
    exact hr.declareExternal library name params result variadic
  | declareStruct library name fields => exact hr.declareStruct library name fields
  | register owner decl origin => exact hr.register owner decl origin
  | metaclass hk => exact hr.metaclass hk
  | hierarchy hk => exact hr.hierarchy hk
  | apply hk args => exact hr.apply hk args
  | functionOf args result => exact hr.functionOf args result
  | unionOf hk => exact hr.unionOf hk

theorem Step.grows (h : t.Step t') (hf : t.Founded) : t.Grows t' := by
  cases h with
  | declareClass name parent isAbstract typeVars hk =>
    rcases declareClass_cases hf name parent isAbstract typeVars fun _ => hk with
      ⟨type, hrun⟩ | ⟨cls, t', hrun, hdeclares⟩
    · rw [hrun]
      exact .refl t
    · rw [hrun]
      exact hdeclares.grows
  | declareLibrary name => exact (declareLibrary_builds name).1.grows
  | declareExternal library name params result variadic =>
    exact (declareExternal_builds library name params result variadic).1.grows
  | declareStruct library name fields => exact (declareStruct_builds hf library name fields).1.grows
  | register owner decl origin => exact (register_builds owner decl origin).1.grows
  | metaclass hk => exact (metaclass_builds hf _).1.grows
  | hierarchy hk => exact (hierarchy_builds hk).1.grows
  | apply hk args => exact (apply_builds hk args).1.grows
  | functionOf args result => exact (functionOf_builds args result).1.grows
  | unionOf hk => exact (unionOf_builds hf hk).1.grows

namespace Becomes

theorem reached (h : t.Becomes t') (hr : t.Reached) : t'.Reached := by
  induction h with
  | refl => exact hr
  | tail _ hstep ih => exact hstep.reached ih

theorem grows (h : t.Becomes t') (hr : t.Reached) : t.Grows t' := by
  induction h with
  | refl => exact .refl t
  | tail hlater hstep ih => exact ih.trans (hstep.grows (Becomes.reached hlater hr).regular.founded)

/-- In every table that declarations and type constructors make of the standard one, types of one
structural shape are the same type, they keep their shape in all later tables, and every union is
in normal form: at least two members by rising number, none of them a union or `NoReturn`, and no
two with a common base. -/
theorem shapes_interned (h : standard.Becomes t) :
    (∀ a b, t.Known a → t.Known b → (t.shape a).isInterned = true → t.shape a = t.shape b →
      a = b) ∧
    (∀ t', t.Becomes t' → ∀ type, t.Known type → (t.shape type).isInterned = true →
      t'.shape type = t.shape type) ∧
    ∀ type members, t.shape type = .union members → t.IsNormal members := by
  have hr := h.reached .standard
  refine ⟨hr.regular.eq_of_shape_eq, fun t' hlater type hk hinterned => ?_, hr.regular.normal⟩
  obtain ⟨hcls, hlibrary, -⟩ := Shape.isInterned_iff.1 hinterned
  exact ((hlater.grows hr).shape type hk).fixed_of_eq hcls hlibrary

end Becomes

def nilOrInt : TypeTable :=
  (unionOf [.int32, .nil] standard).2

theorem nilOrInt_becomes : standard.Becomes nilOrInt :=
  .single (.unionOf (by decide +kernel))

/-- `Nil | Int32` is one type, in normal form, and stays it when a class is declared. -/
theorem shapes_interned_nilOrInt :
    standard.Becomes nilOrInt ∧ nilOrInt.shape ⟨14⟩ = .union [.nil, .int32] ∧
      nilOrInt.IsNormal [.nil, .int32] ∧
      (∀ b, nilOrInt.Known b → nilOrInt.shape b = .union [.nil, .int32] → b = ⟨14⟩) ∧
      (declareClass "Foo" none false [] nilOrInt).2.shape ⟨14⟩ = .union [.nil, .int32] := by
  have hshape : nilOrInt.shape ⟨14⟩ = .union [.nil, .int32] := by decide +kernel
  have hk : nilOrInt.Known ⟨14⟩ := by decide +kernel
  have hinterned : (nilOrInt.shape ⟨14⟩).isInterned = true := by
    rw [hshape]
    rfl
  obtain ⟨hunique, hkept, hnormal⟩ := nilOrInt_becomes.shapes_interned
  refine ⟨nilOrInt_becomes, hshape, hnormal ⟨14⟩ _ hshape, fun b hb heq => ?_, ?_⟩
  · exact (hunique ⟨14⟩ b hk hb hinterned (hshape.trans heq.symm)).symm
  · rw [← hshape]
    exact hkept _ (.single (.declareClass "Foo" none false [] (by simp))) ⟨14⟩ hk hinterned

end Callsite.TypeTable
