import Callsite.Proofs.Types.Derived

/-!
# Denotation and declaration in growing tables

What a type expression denotes extends the table, also when it fails.  Declaring
a class is the one change that adds a class; the new class is recorded with its
parent.  The standard table is founded, so every table that a run reaches is.
-/

namespace Callsite

/-- A computation that may fail extends the table, and ends with `Q` if it does not. -/
def Denotes {α : Type} (x : Denote α) (t : TypeTable) (Q : α → TypeTable → Prop) : Prop :=
  match x t with
  | .ok a t' => t.Extends t' ∧ Q a t'
  | .error _ t' => t.Extends t'

namespace Denotes

variable {α β : Type} {x : Denote α} {f : α → Denote β} {t : TypeTable}
variable {Q : α → TypeTable → Prop} {R : β → TypeTable → Prop}

theorem pure {a : α} (h : Q a t) : Denotes (Pure.pure a) t Q :=
  ⟨.refl t, h⟩

theorem throw (failure : Failure) : Denotes (MonadExcept.throw failure) t Q :=
  TypeTable.Extends.refl t

theorem bind (hx : Denotes x t Q) (hf : ∀ a t', t.Extends t' → Q a t' → Denotes (f a) t' R) :
    Denotes (x >>= f) t R := by
  rw [Denotes] at hx ⊢
  cases hxt : x t with
  | ok a t1 =>
    have hrun : (x >>= f) t = f a t1 := by simp [Bind.bind, EStateM.bind, hxt]
    rw [hxt] at hx
    obtain ⟨h1, hq⟩ := hx
    have hnext := hf a t1 h1 hq
    rw [Denotes] at hnext
    rw [hrun]
    cases hft : f a t1 with
    | ok b t2 =>
      rw [hft] at hnext
      exact ⟨h1.trans hnext.1, hnext.2⟩
    | error failure t2 =>
      rw [hft] at hnext
      exact h1.trans hnext
  | error failure t1 =>
    have hrun : (x >>= f) t = .error failure t1 := by simp [Bind.bind, EStateM.bind, hxt]
    rw [hxt] at hx
    rw [hrun]
    exact hx

theorem get_bind {f : TypeTable → Denote β} (h : Denotes (f t) t R) :
    Denotes (MonadState.get >>= f) t R := h

theorem ofBuild {build : Build α} (h : Builds build t Q) :
    Denotes (Denote.ofBuild build) t Q := h

end Denotes

namespace TypeTable

variable {t : TypeTable}

theorem checkGeneric_denotes (generic : TypeId) (given : Nat) (span : Span) :
    Denotes (checkGeneric generic given span) t fun _ t' => t'.Known generic := by
  refine Denotes.get_bind ?_
  split
  next info hshape =>
    split
    · exact Denotes.throw _
    split
    · exact Denotes.throw _
    · exact Denotes.pure (known_of_shape_ne (by simp [hshape]))
  next => exact Denotes.throw _

mutual

theorem denote_denotes {t : TypeTable} (hf : t.Founded) (owner : TypeId) (free : Bindings)
    (span : Span) :
    (e : TypeExpr) → Denotes (denote owner free span e) t fun _ _ => True
  | .path names global => by
    refine Denotes.get_bind ?_
    split
    next => exact Denotes.pure True.intro
    next => exact Denotes.throw _
  | .selfType => Denotes.pure True.intro
  | .resolved type => Denotes.pure True.intro
  | .generic head args => by
    refine (denote_denotes hf owner free span head).bind fun generic t1 h1 _ => ?_
    refine (checkGeneric_denotes generic args.length span).bind fun _ t2 h2 hknown => ?_
    have hf2 := h2.founded (h1.founded hf)
    refine (denoteAll_denotes hf2 owner free span args).bind fun types t3 h3 _ => ?_
    have happly := apply_builds (h3.known hknown) types
    exact Denotes.ofBuild happly.trivial
  | .function inputs output => by
    refine (denoteAll_denotes hf owner free span inputs).bind fun types t1 h1 _ => ?_
    refine (denoteResult_denotes (h1.founded hf) owner free span output).bind
      fun result t2 _ _ => ?_
    exact Denotes.ofBuild (functionOf_builds types result).trivial

theorem denoteAll_denotes {t : TypeTable} (hf : t.Founded) (owner : TypeId) (free : Bindings)
    (span : Span) :
    (es : List TypeExpr) → Denotes (denoteAll owner free span es) t fun _ _ => True
  | [] => Denotes.pure True.intro
  | e :: es => by
    refine (denote_denotes hf owner free span e).bind fun type t1 h1 _ => ?_
    refine (denoteAll_denotes (h1.founded hf) owner free span es).bind fun types _ _ _ => ?_
    exact Denotes.pure True.intro

theorem denoteResult_denotes {t : TypeTable} (hf : t.Founded) (owner : TypeId) (free : Bindings)
    (span : Span) :
    (e : Option TypeExpr) → Denotes (denoteResult owner free span e) t fun _ _ => True
  | none => Denotes.pure True.intro
  | some e => denote_denotes hf owner free span e

end

/-! ## Declaring a class -/

/-- A later table with one more class, which stands below `parent`. -/
structure Declares (t t' : TypeTable) (cls parent : TypeId) : Prop where
  cls_eq : cls = ⟨t.size⟩
  size_eq : t'.size = t.size + 1
  parent_known : t.Known parent
  shape_new : ∃ info, t'.shape cls = .cls info ∧ info.parent = some parent ∧ info.subclasses = []
  shape_old :
    ∀ type, t.Known type →
      t'.shape type = if type = parent then (t.shape type).addSubclass cls else t.shape type
  methods_eq : t'.methods = t.methods

namespace Declares

variable {t' : TypeTable} {cls parent type : TypeId}

section

variable (h : Declares t t' cls parent)
include h

theorem known_iff : t'.Known type ↔ t.Known type ∨ type = cls := by
  rw [Known, h.size_eq, Known, h.cls_eq]
  cases type
  simp only [TypeId.mk.injEq]
  omega

theorem not_known : ¬ t.Known cls := by
  rw [Known, h.cls_eq]
  exact Nat.lt_irrefl _

theorem shape_grows (hk : t.Known type) : (t.shape type).Grows (t'.shape type) := by
  rw [h.shape_old type hk]
  split
  · generalize t.shape type = shape
    cases shape with
    | cls info => exact .cls info [cls]
    | _ => exact .same _
  · exact .same _

theorem grows : t.Grows t' where
  size_le := by
    rw [h.size_eq]
    exact Nat.le_succ _
  shape := fun _ hk => h.shape_grows hk
  methods_le := Nat.le_of_eq (by rw [h.methods_eq])
  method := fun _ _ => by rw [method, method, h.methods_eq]

/-- The classes that name a parent: the earlier ones, and the new one. -/
theorem names_parent_iff (above : TypeId) :
    (∃ info, t'.shape type = .cls info ∧ info.parent = some above) ↔
      (∃ info, t.shape type = .cls info ∧ info.parent = some above) ∨
        (type = cls ∧ above = parent) := by
  by_cases hk : t.Known type
  · have hne : type ≠ cls := fun heq => h.not_known (heq ▸ hk)
    have hgrows := h.shape_grows hk
    generalize t.shape type = a at hgrows
    generalize t'.shape type = b at hgrows
    cases hgrows with
    | same | cls | library => simp [hne]
  · rw [shape_of_not_known hk]
    by_cases heq : type = cls
    · obtain ⟨info, hshape, hparent, -⟩ := h.shape_new
      rw [heq, hshape]
      constructor
      · rintro ⟨info', hinfo, habove⟩
        obtain rfl := Shape.cls.inj hinfo
        rw [hparent] at habove
        exact Or.inr ⟨rfl, (Option.some.inj habove).symm⟩
      · rintro (⟨info', hinfo, -⟩ | ⟨-, rfl⟩)
        · simp at hinfo
        · exact ⟨info, rfl, hparent⟩
    · have hk' : ¬ t'.Known type := by simp [h.known_iff, hk, heq]
      rw [shape_of_not_known hk']
      simp [heq]

end

theorem externals_addSubclass (child : TypeId) (shape : Shape) :
    (shape.addSubclass child).externals = shape.externals := by
  cases shape <;> rfl

theorem founded (h : Declares t t' cls parent) (hf : t.Founded) : t'.Founded := by
  refine h.grows.founded hf ?_ ?_ (h.methods_eq ▸ hf.slots) ?_
  · intro type hk hnew
    obtain rfl := (h.known_iff.1 hk).resolve_left hnew
    obtain ⟨info, hshape, hparent, -⟩ := h.shape_new
    rw [hshape]
    intro above habove
    rw [hparent] at habove
    cases habove
    rw [h.cls_eq]
    exact h.parent_known
  · intro above child info habove
    rw [h.names_parent_iff above]
    have hknown : t'.Known above := known_of_shape_ne (by simp [habove])
    rcases h.known_iff.1 hknown with hold | rfl
    · rw [h.shape_old above hold] at habove
      by_cases heq : above = parent
      · rw [if_pos heq] at habove
        -- The parent gains the new class, and keeps those it had.
        cases hshape : t.shape above with
        | cls old =>
          rw [hshape] at habove
          obtain rfl := Shape.cls.inj habove
          rw [List.mem_append, List.mem_singleton, hf.children above child old hshape]
          simp [heq]
        | _ => simp [hshape, Shape.addSubclass] at habove
      · rw [if_neg heq] at habove
        simp [heq, hf.children above child info habove]
    · obtain ⟨info', hshape, -, hsubclasses⟩ := h.shape_new
      rw [hshape] at habove
      obtain rfl := Shape.cls.inj habove
      have hne : above ≠ parent := fun heq => h.not_known (heq ▸ h.parent_known)
      simp only [hsubclasses, List.not_mem_nil, hne, and_false, or_false, false_iff]
      rintro ⟨childInfo, hchild, hparent⟩
      obtain ⟨hk, hlt⟩ := hf.below_of_shape hchild (by simp)
      exact h.not_known ((hlt above hparent).trans hk)
  · intro type hk external hexternal
    rcases h.known_iff.1 hk with hold | rfl
    · rw [h.shape_old type hold] at hexternal
      split at hexternal
      · exact Or.inl (externals_addSubclass cls _ ▸ hexternal)
      · exact Or.inl hexternal
    · obtain ⟨info, hshape, -, -⟩ := h.shape_new
      rw [hshape] at hexternal
      cases hexternal

end Declares

theorem newClass_shape {parent : TypeId} (name : String) (isAbstract : Bool)
    (typeVars : List String) (hk : t.Known parent) :
    (newClass name (some parent) isAbstract typeVars t).2.shape ⟨t.size⟩
      = .cls ⟨name, some parent, isAbstract, [], typeVars⟩ := by
  have hne : parent ≠ ⟨t.size⟩ := by
    rintro rfl
    exact Nat.lt_irrefl _ hk
  have hpushed :
      (push (.cls ⟨name, some parent, isAbstract, [], typeVars⟩) t).2.Known ⟨t.size⟩ := by
    simp [Known]
  refine (updateShape_shape ⟨t.size⟩ (Shape.addSubclass ⟨t.size⟩) hpushed).trans ?_
  rw [if_neg hne, push_shape_new]

theorem newClass_declares {parent : TypeId} (name : String) (isAbstract : Bool)
    (typeVars : List String) (hk : t.Known parent) :
    (newClass name (some parent) isAbstract typeVars t).1 = ⟨t.size⟩ ∧
      Declares t (newClass name (some parent) isAbstract typeVars t).2 ⟨t.size⟩ parent := by
  refine ⟨rfl, rfl, ?_, hk, ⟨_, newClass_shape name isAbstract typeVars hk, rfl, rfl⟩, ?_, rfl⟩
  · exact (updateShape_size _ _ _).trans (push_size _ t)
  · intro type htype
    have hknown := (known_push_iff (.cls ⟨name, some parent, isAbstract, [], typeVars⟩)).2
      (Or.inl htype)
    refine (updateShape_shape type (Shape.addSubclass ⟨t.size⟩) hknown).trans ?_
    rw [push_shape_of_known _ htype]
    simp only [eq_comm]

/-- A declaration opens a class again and changes nothing, or adds a class. -/
theorem declareClass_cases (hf : t.Founded) (name : String) (parent : Option TypeId)
    (isAbstract : Bool) (typeVars : List String)
    (hk : t.declaredClass? name = none → ∀ above, parent = some above → t.Known above) :
    (∃ type, declareClass name parent isAbstract typeVars t = ((type, false), t)) ∨
      ∃ cls t', declareClass name parent isAbstract typeVars t = ((cls, true), t') ∧
        Declares t t' cls (parent.getD .reference) := by
  cases hdeclared : t.declaredClass? name with
  | some type =>
    left
    refine ⟨type, ?_⟩
    rw [declareClass, run_get_bind, hdeclared]
    rfl
  | none =>
    right
    have hparent : t.Known (parent.getD .reference) := by
      cases parent with
      | none => exact Nat.lt_trans (by decide) hf.standard
      | some above => exact hk hdeclared above rfl
    obtain ⟨hid, hdeclares⟩ := newClass_declares name isAbstract typeVars hparent
    refine ⟨⟨t.size⟩, _, ?_, hdeclares⟩
    rw [declareClass, run_get_bind, hdeclared]
    rfl

/-! ## The standard table -/

/-- The class that a class names as its parent. -/
def parentOf? (t : TypeTable) (type : TypeId) : Option TypeId :=
  match t.shape type with
  | .cls info => info.parent
  | _ => none

theorem parentOf?_eq_some_iff {type above : TypeId} :
    t.parentOf? type = some above ↔
      ∃ info, t.shape type = .cls info ∧ info.parent = some above := by
  rw [parentOf?]
  constructor
  · intro h
    split at h
    next info hshape => exact ⟨info, hshape, h⟩
    next => simp at h
  · rintro ⟨info, hshape, hparent⟩
    rw [hshape]
    exact hparent

/-- The direct subclasses that a class lists. -/
def subclassesOf (t : TypeTable) (type : TypeId) : List TypeId :=
  match t.shape type with
  | .cls info => info.subclasses
  | _ => []

theorem mem_subclassesOf {parent child : TypeId} {info : ClassInfo}
    (h : t.shape parent = .cls info) : child ∈ t.subclassesOf parent ↔ child ∈ info.subclasses := by
  rw [subclassesOf, h]

/-- A table that is founded as far as its positions can tell is founded. -/
theorem founded_of_positions (hstandard : TypeId.pointer.index < t.size)
    (hnoReturn : t.shape .noReturn = .noReturn) (hbelow : ∀ i < t.size, (t.shape ⟨i⟩).Below i)
    (hchildren : ∀ i < t.size, ∀ child ∈ t.subclassesOf ⟨i⟩, t.parentOf? child = some ⟨i⟩)
    (hparents : ∀ i < t.size, ∀ above ∈ t.parentOf? ⟨i⟩, ⟨i⟩ ∈ t.subclassesOf above)
    (hslots : ∀ id ∈ t.methods.slots, id.index < t.methods.size)
    (hexternals : ∀ i < t.size, (t.shape ⟨i⟩).externals = []) : t.Founded := by
  refine ⟨hstandard, hnoReturn, fun type hk => hbelow type.index hk, ?_, hslots, ?_⟩
  case refine_2 =>
    intro type external hexternal
    by_cases hk : t.Known type
    · rw [hexternals type.index hk] at hexternal
      cases hexternal
    · rw [shape_of_not_known hk] at hexternal
      cases hexternal
  intro parent child info hshape
  rw [← mem_subclassesOf hshape, ← parentOf?_eq_some_iff]
  constructor
  · intro hmem
    have hk : t.Known parent := known_of_shape_ne (by simp [hshape])
    exact hchildren parent.index hk child hmem
  · intro hparent
    obtain ⟨childInfo, hchild, -⟩ := parentOf?_eq_some_iff.1 hparent
    have hk : t.Known child := known_of_shape_ne (by simp [hchild])
    exact hparents child.index hk parent hparent

theorem standard_founded : standard.Founded :=
  founded_of_positions (by decide +kernel) (by decide +kernel) (by decide +kernel)
    (by decide +kernel) (by decide +kernel) (by decide +kernel) (by decide +kernel)

theorem standard_parentOf?_nil : standard.parentOf? .nil = some .value := by
  decide +kernel

end TypeTable

end Callsite
