import Callsite.Proofs.Range.Types

/-!
# Building types in range

Computations that add types and methods keep the table in range: given data in range, they store
nothing else and give a result in range.
-/

namespace Callsite

variable {γ : Type} {t : TypeTable} {shape : Shape} {owner result library : TypeId}
  {members args : List TypeId} {parent : Option TypeId} {free : Bindings}

open Sizes

/-- Started on a table in range with at least the sizes `z`, the computation only adds to the
table, leaves it in range, and gives a result in range. -/
def Build.Ranges {α : Type} [Ranged α] (z : Sizes) (x : Build α) : Prop :=
  ∀ t : TypeTable, t.InRange → z ≤ t.sizes →
    t.sizes ≤ (x t).2.sizes ∧ (x t).2.InRange ∧ (x t).2.sizes.Holds (x t).1

namespace Build.Ranges

variable {α β : Type} [Ranged α] [Ranged β] {z : Sizes}

/-- A computation may be looked at where it starts. -/
theorem reading {x : Build α}
    (h : ∀ t : TypeTable, t.InRange → z ≤ t.sizes → Ranges t.sizes x) : Ranges z x :=
  fun t ht hz => h t ht hz t ht (le_refl _)

theorem pure {a : α} (h : z.Holds a) : Ranges z (Pure.pure a) :=
  fun _ ht hz => ⟨le_refl _, ht, h.mono hz⟩

theorem bind {x : Build α} {g : α → Build β} (hx : Ranges z x)
    (hg : ∀ z' a, z ≤ z' → z'.Holds a → Ranges z' (g a)) : Ranges z (x >>= g) := by
  intro t ht hz
  obtain ⟨hle, hin, ha⟩ := hx t ht hz
  obtain ⟨hle', hin', hb⟩ := hg _ (x t).1 (le_trans hz hle) ha (x t).2 hin (le_refl _)
  exact ⟨le_trans hle hle', hin', hb⟩

theorem get_bind {g : TypeTable → Build β}
    (hg : ∀ t : TypeTable, t.InRange → z ≤ t.sizes → Ranges t.sizes (g t)) :
    Ranges z (get >>= g) :=
  fun t ht hz => hg t ht hz t ht (le_refl _)

theorem map {x : Build α} {g : α → β} (hx : Ranges z x)
    (hg : ∀ z' : Sizes, ∀ a, z'.Holds a → z'.Holds (g a)) : Ranges z (g <$> x) := by
  intro t ht hz
  obtain ⟨hle, hin, ha⟩ := hx t ht hz
  exact ⟨hle, hin, hg _ _ ha⟩

theorem mapM {g : γ → Build β} {l : List γ} (hg : ∀ z', z ≤ z' → ∀ a ∈ l, Ranges z' (g a)) :
    Ranges z (l.mapM g) := by
  induction l generalizing z with
  | nil => exact pure holds_nil
  | cons a l ih =>
    rw [List.mapM_cons]
    refine (hg z (le_refl z) a (by simp)).bind fun z' b hz hb => ?_
    have hrest : Ranges z' (l.mapM g) :=
      ih fun z'' hz' c hc => hg z'' (le_trans hz hz') c (List.mem_cons_of_mem a hc)
    exact hrest.bind fun z'' bs hz' hbs => pure (holds_cons.2 ⟨hb.mono hz', hbs⟩)

theorem forM {g : γ → Build PUnit} {l : List γ} (hg : ∀ z', z ≤ z' → ∀ a ∈ l, Ranges z' (g a)) :
    Ranges z (l.forM g) := by
  induction l generalizing z with
  | nil => exact pure (holds_unit _)
  | cons a l ih =>
    refine (hg z (le_refl z) a (by simp)).bind fun z' _ hz _ => ?_
    exact ih fun z'' hz' c hc => hg z'' (le_trans hz hz') c (List.mem_cons_of_mem a hc)

end Build.Ranges

namespace TypeTable

open Build (Ranges)

variable {z : Sizes} {type : TypeId}

/-! ## Single changes -/

theorem InRange.of_shapes (h : t.InRange) (t' : TypeTable)
    (hshapes : t'.sizes.Holds t'.shapes) (hsize : t.size ≤ t'.size)
    (hconstants : t'.constants = t.constants) (hmethods : t'.methods = t.methods) :
    t.sizes ≤ t'.sizes ∧ t'.InRange := by
  have hle : t.sizes ≤ t'.sizes :=
    { le_refl t.sizes with
      types := hsize
      methods := (congrArg MethodTable.size hmethods.symm).le }
  refine ⟨hle, ?_⟩
  exact
    { standard := h.standard.trans_le hsize
      primitive := hmethods ▸ h.primitive
      allShapes := hshapes
      constants := hconstants ▸ h.constants.mono hle
      allMethods := hmethods ▸ h.allMethods.mono hle
      slots := hmethods ▸ h.slots.mono hle }

theorem push_ranges (h : z.Holds shape) : Ranges z (push shape) := by
  intro t ht hz
  have hle : t.sizes ≤ (push shape t).2.sizes :=
    { le_refl t.sizes with types := by simp [TypeTable.sizes] }
  have hshapes : (push shape t).2.sizes.Holds (t.shapes.push shape) :=
    forall_push (ht.allShapes.mono hle) (h.mono (le_trans hz hle))
  obtain ⟨-, hin⟩ := ht.of_shapes (push shape t).2 hshapes hle.types rfl rfl
  refine ⟨hle, hin, ?_⟩
  exact holds_iff_known.2 (by simp [Known])

theorem intern_ranges (h : z.Holds shape) : Ranges z (intern shape) := by
  intro t ht hz
  rw [intern]
  cases hf : t.find? shape with
  | none => exact push_ranges h t ht hz
  | some type => exact ⟨le_refl _, ht, holds_find? shape type hf⟩

theorem bindConstant_ranges (name : String) (htype : z.Holds type) :
    Ranges z (bindConstant name type) := by
  intro t ht hz
  refine ⟨le_refl _, { ht with constants := ?_ }, trivial⟩
  exact holds_cons.2 ⟨holds_pair.2 ⟨holds_string _, htype.mono hz⟩, ht.constants⟩

theorem updateShape_ranges {f : Shape → Shape}
    (hf : ∀ z' : Sizes, z ≤ z' → ∀ shape, z'.Holds shape → z'.Holds (f shape)) :
    Ranges z (updateShape type f) := by
  intro t ht hz
  have hsize : (updateShape type f t).2.size = t.size := updateShape_size type f t
  have hsizes : (updateShape type f t).2.sizes = t.sizes := by
    rw [TypeTable.sizes, hsize]
    rfl
  have hshapes : t.sizes.Holds (t.shapes.modify type.index f) :=
    forall_modify ht.allShapes _ (hf _ hz)
  obtain ⟨hle, hin⟩ := ht.of_shapes (updateShape type f t).2 (hsizes ▸ hshapes)
    (hsize.symm.le) rfl rfl
  exact ⟨hle, hin, trivial⟩

theorem register_ranges {decl : MethodDecl} (origin : Origin) (howner : z.Holds owner)
    (hdecl : z.Holds decl) : Ranges z (register owner decl origin) := by
  intro t ht hz
  have hle : t.sizes ≤ (register owner decl origin t).2.sizes :=
    { le_refl t.sizes with
      methods := by simp [TypeTable.sizes, register, MethodTable.register, MethodTable.size] }
  have hid : (register owner decl origin t).2.sizes.Holds (register owner decl origin t).1 := by
    change t.methods.methods.size < (t.methods.methods.push _).size
    simp
  refine ⟨hle, ⟨ht.standard, ht.primitive.trans_le hle.methods, ht.allShapes.mono hle,
    ht.constants.mono hle, ?_, ?_⟩, hid⟩
  · refine forall_push (ht.allMethods.mono hle) ⟨hid, ?_, ?_⟩
    · exact hdecl.mono (le_trans hz hle)
    · exact howner.mono (le_trans hz hle)
  · intro id hmem
    rcases MethodTable.mem_fillSlot hmem with rfl | hold
    · exact hid
    · exact (ht.slots id hold).mono hle

theorem primitive_ranges (name : String) {params : List Param} {result : TypeExpr}
    (howner : z.Holds owner) (hparams : z.Holds params) (hresult : z.Holds result) :
    Ranges z (primitive owner name params result) := by
  refine register_ranges _ howner (holds_generatedMethod.2 ⟨hparams, ?_⟩)
  exact holds_generated.2 (holds_parts.2 hresult)

/-! ## Unions and what is built from them -/

theorem hierarchy_ranges {base : TypeId} (hbase : z.Holds base) : Ranges z (hierarchy base) :=
  intern_ranges hbase

theorem mergeMembers_ranges (steps : Nat) (h : z.Holds members) :
    Ranges z (mergeMembers steps members) := by
  induction steps generalizing members z with
  | zero => exact .pure h
  | succ steps ih =>
    refine .get_bind fun t ht hz => ?_
    rcases hfirst : t.firstMerge? members with _ | ⟨front, base, others⟩
    · exact .pure (h.mono hz)
    · obtain ⟨hfront, hbase, hothers⟩ := ht.holds_firstMerge? (h.mono hz) _ hfirst
      refine (hierarchy_ranges hbase).bind fun z' merged hz' hmerged => ?_
      apply ih
      apply holds_dropRepeats
      exact holds_append.2 ⟨hfront.mono hz', holds_cons.2 ⟨hmerged, hothers.mono hz'⟩⟩

theorem ofMembers_ranges (h : z.Holds members) : Ranges z (ofMembers members) := by
  refine .reading fun t ht hz => ?_
  rcases members with _ | ⟨only, _ | ⟨next, rest⟩⟩
  · exact .pure (ht.holds_standard (by decide))
  · exact .pure ((holds_cons.1 h).1.mono hz)
  · refine intern_ranges (Holds.of_subset (h.mono hz) fun a ha => ?_)
    exact mem_sort.1 ha

theorem unionOf_ranges {types : List TypeId} (h : z.Holds types) : Ranges z (unionOf types) := by
  refine .get_bind fun t ht hz => ?_
  have hflat := ht.holds_flatten (h.mono hz)
  refine (mergeMembers_ranges _ ?_).bind fun z' members hz' hmembers => ofMembers_ranges hmembers
  split
  · exact hflat.filter _
  · exact hflat

theorem metaclassOfPart_ranges (h : z.Holds type) : Ranges z (metaclassOfPart type) := by
  refine .get_bind fun t ht hz => ?_
  cases hs : t.shape type with
  | hierarchy base => exact intern_ranges (ht.holdsShape hs)
  | library | noReturn | program => exact .pure (h.mono hz)
  | _ => exact intern_ranges (h.mono hz)

theorem metaclass_ranges (h : z.Holds type) : Ranges z (metaclass type) := by
  refine .get_bind fun t ht hz => ?_
  cases hs : t.shape type with
  | union members =>
    refine .bind (.mapM fun z' hz' a ha => ?_) fun z' parts hz' hparts => unionOf_ranges hparts
    exact metaclassOfPart_ranges ((ht.holdsShape hs a ha).mono hz')
  | _ => exact metaclassOfPart_ranges (h.mono hz)

theorem apply_ranges {generic : TypeId} (hgeneric : z.Holds generic) (hargs : z.Holds args) :
    Ranges z (apply generic args) :=
  intern_ranges ⟨hgeneric, hargs⟩

theorem pointerTo_ranges (h : z.Holds type) : Ranges z (pointerTo type) :=
  .reading fun t ht hz =>
    apply_ranges (ht.holds_standard (by decide)) (holds_cons.2 ⟨h.mono hz, holds_nil⟩)

theorem arrayOf_ranges (h : z.Holds type) : Ranges z (arrayOf type) :=
  .reading fun t ht hz =>
    apply_ranges (ht.holds_standard (by decide)) (holds_cons.2 ⟨h.mono hz, holds_nil⟩)

theorem holds_typed {name : String} {restriction : TypeExpr} (h : z.Holds restriction) :
    z.Holds (Param.typed name restriction) :=
  holds_param.2 ⟨holds_none, holds_some.2 h⟩

theorem functionOf_ranges (hargs : z.Holds args) (hresult : z.Holds result) :
    Ranges z (functionOf args result) := by
  refine .get_bind fun t ht hz => ?_
  cases hf : t.find? (.function args result) with
  | some type => exact .pure (holds_find? _ type hf)
  | none =>
    refine .bind (push_ranges ⟨hargs.mono hz, hresult.mono hz⟩) fun z' type hz' htype => ?_
    have hz := le_trans hz hz'
    refine .bind (primitive_ranges _ htype (fun param hparam => ?_)
      (holds_resolved.2 (hresult.mono hz))) fun z'' _ hz'' _ => .pure (htype.mono hz'')
    obtain ⟨i, hi, rfl⟩ := List.mem_mapIdx.1 hparam
    exact holds_typed (holds_resolved.2 ((hargs _ (List.getElem_mem hi)).mono hz))

/-! ## Declarations -/

section

variable (name : String) (isAbstract : Bool) (typeVars : List String) (hparent : z.Holds parent)
include hparent

theorem newClass_ranges : Ranges z (newClass name parent isAbstract typeVars) := by
  have hadd : ∀ z' : Sizes, ∀ child, z'.Holds child → ∀ shape, z'.Holds shape →
      z'.Holds (Shape.addSubclass child shape) := by
    intro z' child hchild shape hshape
    cases shape with
    | cls info =>
      exact ⟨hshape.1, holds_append.2 ⟨hshape.2, holds_cons.2 ⟨hchild, holds_nil⟩⟩⟩
    | _ => exact hshape
  refine .bind (push_ranges ⟨hparent, holds_nil⟩) fun z' type hz htype => ?_
  cases parent with
  | none =>
    exact .bind (bindConstant_ranges name htype) fun z'' _ hz' _ => .pure (htype.mono hz')
  | some above =>
    refine .bind (updateShape_ranges fun z'' hz' => hadd z'' type (htype.mono hz')) ?_
    intro z'' _ hz' _
    exact .bind (bindConstant_ranges name (htype.mono hz')) fun z3 _ hz'' _ =>
      .pure (htype.mono (le_trans hz' hz''))

theorem declareClass_ranges : Ranges z (declareClass name parent isAbstract typeVars) := by
  refine .get_bind fun t ht hz => ?_
  cases hdeclared : t.declaredClass? name with
  | some type =>
    have hconstant := Option.eq_some_of_filter_eq_some hdeclared
    exact .pure ⟨ht.holds_constant? name type hconstant, holds_bool _⟩
  | none =>
    refine .bind (newClass_ranges name _ _ (holds_some.2 ?_)) fun z' type _ htype =>
      .pure ⟨htype, holds_bool _⟩
    cases parent with
    | none => exact ht.holds_standard (by decide)
    | some above => exact (holds_some.1 hparent).mono hz

end

theorem declareLibrary_ranges (name : String) : Ranges z (declareLibrary name) := by
  refine .get_bind fun t ht hz => ?_
  cases hdeclared : (t.constant? name).filter t.isLibrary with
  | some type =>
    exact .pure (ht.holds_constant? name type (Option.eq_some_of_filter_eq_some hdeclared))
  | none =>
    have hshape : t.sizes.Holds (Shape.library ⟨name, []⟩) :=
      holds_shape.2 (holds_nil (α := External))
    refine .bind (push_ranges hshape) fun z' type _ htype => ?_
    exact .bind (bindConstant_ranges name htype) fun z'' _ hz' _ => .pure (htype.mono hz')

theorem declareExternal_ranges (name : String) {params : List (String × TypeId)} (variadic : Bool)
    (hlibrary : z.Holds library) (hparams : z.Holds params) (hresult : z.Holds result) :
    Ranges z (declareExternal library name params result variadic) := by
  have hadd : ∀ z' : Sizes, ∀ external, z'.Holds external → ∀ shape, z'.Holds shape →
      z'.Holds (Shape.addExternal external shape) := by
    intro z' external hexternal shape hshape
    cases shape with
    | library info =>
      exact holds_append.2 ⟨Holds.filter hshape _, holds_cons.2 ⟨hexternal, holds_nil⟩⟩
    | _ => exact hshape
  refine .bind (register_ranges _ hlibrary (holds_generatedMethod.2 ⟨?_, ?_⟩))
    fun z' method hz hm => ?_
  · intro param hparam
    obtain ⟨entry, hentry, rfl⟩ := List.mem_map.1 hparam
    exact holds_typed (holds_resolved.2 (hparams entry hentry).2)
  · exact holds_generated.2 (holds_parts.2 (holds_resolved.2 hresult))
  · have hexternal : z'.Holds (⟨name, params, result, variadic, method⟩ : External) :=
      ⟨hparams.mono hz, hresult.mono hz, hm⟩
    refine .bind (updateShape_ranges fun z'' hz' => hadd z'' _ (hexternal.mono hz')) ?_
    exact fun z'' _ hz' _ => .pure (hm.mono hz')

theorem declareField_ranges {struct : TypeId} (field : String) (hstruct : z.Holds struct)
    (htype : z.Holds type) : Ranges z (declareField struct field type) := by
  refine .bind (primitive_ranges _ hstruct holds_nil (holds_resolved.2 htype)) fun z' _ hz _ => ?_
  have hresolved : z'.Holds (TypeExpr.resolved type) := holds_resolved.2 (htype.mono hz)
  refine .bind (primitive_ranges _ (hstruct.mono hz) ?_ hresolved) fun _ _ _ _ => .pure trivial
  exact holds_cons.2 ⟨holds_typed hresolved, holds_nil⟩

theorem declareStruct_ranges (name : String) {fields : List (String × TypeId)}
    (hlibrary : z.Holds library) (hfields : z.Holds fields) :
    Ranges z (declareStruct library name fields) := by
  refine .get_bind fun t ht hz => ?_
  refine .bind (push_ranges ⟨hlibrary.mono hz, hfields.mono hz⟩) fun z1 type hz1 htype => ?_
  refine .bind (bindConstant_ranges _ htype) fun z2 _ hz2 _ => ?_
  refine .bind (.forM fun z' hz' field hfield => ?_) fun z3 _ hz3 _ => ?_
  · have hle := le_trans hz (le_trans hz1 (le_trans hz2 hz'))
    exact declareField_ranges field.1 (htype.mono (le_trans hz2 hz'))
      ((hfields field hfield).2.mono hle)
  · have htype3 := htype.mono (le_trans hz2 hz3)
    refine .bind (metaclass_ranges htype3) fun z4 metaType hz4 hmeta => ?_
    refine .bind (register_ranges _ hmeta holds_allocatorDecl) fun z5 _ hz5 _ => ?_
    exact .pure (htype3.mono (le_trans hz4 hz5))

end TypeTable

/-! ## Denotations -/

/-- Started on a table in range with at least the sizes `z`, the computation only adds to the
table and leaves it in range, and the result that it gives is in range. -/
def Denote.Ranges {α : Type} [Ranged α] (z : Sizes) (x : Denote α) : Prop :=
  ∀ t : TypeTable, t.InRange → z ≤ t.sizes →
    match x t with
    | .ok a t' => t.sizes ≤ t'.sizes ∧ t'.InRange ∧ t'.sizes.Holds a
    | .error _ t' => t.sizes ≤ t'.sizes ∧ t'.InRange

namespace Denote.Ranges

variable {α β : Type} [Ranged α] [Ranged β] {z : Sizes}

theorem reading {x : Denote α}
    (h : ∀ t : TypeTable, t.InRange → z ≤ t.sizes → Ranges t.sizes x) : Ranges z x :=
  fun t ht hz => h t ht hz t ht (le_refl _)

theorem pure {a : α} (h : z.Holds a) : Ranges z (Pure.pure a) :=
  fun _ ht hz => ⟨le_refl _, ht, h.mono hz⟩

theorem throw (failure : Failure) : Ranges z (throw failure : Denote α) :=
  fun _ ht _ => ⟨le_refl _, ht⟩

theorem ofBuild {x : Build α} (hx : Build.Ranges z x) : Ranges z (Denote.ofBuild x) :=
  fun t ht hz => hx t ht hz

theorem bind {x : Denote α} {g : α → Denote β} (hx : Ranges z x)
    (hg : ∀ z' a, z ≤ z' → z'.Holds a → Ranges z' (g a)) : Ranges z (x >>= g) := by
  intro t ht hz
  have hstart := hx t ht hz
  have hrun : (x >>= g) t = EStateM.bind x g t := rfl
  cases hfirst : x t with
  | error e t' =>
    simp only [hrun, EStateM.bind, hfirst] at hstart ⊢
    exact hstart
  | ok a t' =>
    simp only [hfirst] at hstart
    obtain ⟨hle, hin, ha⟩ := hstart
    have hrest := hg _ a (le_trans hz hle) ha t' hin (le_refl _)
    simp only [hrun, EStateM.bind, hfirst]
    cases hsecond : g a t' with
    | ok | error =>
      simp only [hsecond] at hrest ⊢
      exact ⟨le_trans hle hrest.1, hrest.2⟩

theorem get_bind {g : TypeTable → Denote β}
    (hg : ∀ t : TypeTable, t.InRange → z ≤ t.sizes → Ranges t.sizes (g t)) :
    Ranges z (get >>= g) :=
  fun t ht hz => hg t ht hz t ht (le_refl _)

end Denote.Ranges

namespace TypeTable

variable {z : Sizes}

theorem checkGeneric_ranges (generic : TypeId) (given : Nat) (span : Span) :
    Denote.Ranges z (checkGeneric generic given span) := by
  refine .get_bind fun t ht hz => ?_
  cases t.shape generic with
  | cls info =>
    dsimp only
    split
    · exact .throw _
    · split
      · exact .throw _
      · exact .pure trivial
  | _ => exact .throw _

mutual

theorem denote_ranges (span : Span) :
    ∀ (e : TypeExpr) {z : Sizes}, z.Holds owner → z.Holds free → z.Holds e →
      Denote.Ranges z (denote owner free span e)
  | .path names global, z, _, hfree, _ => by
    refine .get_bind fun t ht hz => ?_
    cases hp : t.pathType? owner free names global with
    | none => exact .throw _
    | some type => exact .pure (ht.holds_pathType? owner (hfree.mono hz) names global type hp)
  | .selfType, z, howner, _, _ => .pure howner
  | .resolved type, z, _, _, he => .pure (holds_resolved.1 he)
  | .generic head args, z, howner, hfree, he => by
    rw [holds_generic] at he
    refine .bind (denote_ranges span head howner hfree he.1) fun z1 generic hz1 hgeneric => ?_
    refine .bind (checkGeneric_ranges generic _ span) fun z2 _ hz2 _ => ?_
    have hz := le_trans hz1 hz2
    refine .bind (denoteAll_ranges span args (howner.mono hz) (hfree.mono hz) (he.2.mono hz)) ?_
    intro z3 types hz3 htypes
    exact .ofBuild (apply_ranges (hgeneric.mono (le_trans hz2 hz3)) htypes)
  | .function inputs output, z, howner, hfree, he => by
    rw [holds_function] at he
    refine .bind (denoteAll_ranges span inputs howner hfree he.1) fun z1 types hz1 htypes => ?_
    refine .bind (denoteResult_ranges span output (howner.mono hz1) (hfree.mono hz1)
      (he.2.mono hz1)) fun z2 result hz2 hresult => ?_
    exact .ofBuild (functionOf_ranges (htypes.mono hz2) hresult)

theorem denoteAll_ranges (span : Span) :
    ∀ (es : List TypeExpr) {z : Sizes}, z.Holds owner → z.Holds free → z.Holds es →
      Denote.Ranges z (denoteAll owner free span es)
  | [], z, _, _, _ => .pure holds_nil
  | e :: es, z, howner, hfree, hes => by
    rw [holds_cons] at hes
    refine .bind (denote_ranges span e howner hfree hes.1) fun z1 type hz1 htype => ?_
    refine .bind (denoteAll_ranges span es (howner.mono hz1) (hfree.mono hz1) (hes.2.mono hz1)) ?_
    intro z2 types hz2 htypes
    exact .pure (holds_cons.2 ⟨htype.mono hz2, htypes⟩)

theorem denoteResult_ranges (span : Span) :
    ∀ (e : Option TypeExpr) {z : Sizes}, z.Holds owner → z.Holds free → z.Holds e →
      Denote.Ranges z (denoteResult owner free span e)
  | none, z, _, _, _ => .reading fun t ht hz => .pure (ht.holds_standard (by decide))
  | some e, z, howner, hfree, he => denote_ranges span e howner hfree (holds_some.1 he)

end

end TypeTable

end Callsite
