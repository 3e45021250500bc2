import Callsite.Proofs.Types.Regular

/-!
# What a class inherits

A class names its superclass, and a superclass that is a class lists it in turn.  So the
classes below a base are those that have it among their ancestors, as long as every step
on the way is from a class to a class; an applied generic lists nobody.  A class answers to
its own methods and then to those of its superclass; when that is an applied generic, the
methods of the generic class itself are left out.
-/

namespace Callsite.TypeTable

variable {t : TypeTable} {type base above generic c x : TypeId} {name : String}

/-! ## Chains above a class -/

theorem isSome_classInfo? : (t.classInfo? x).isSome = true ↔ ∃ info, t.shape x = .cls info := by
  simp only [Option.isSome_iff_exists, classInfo?_eq_some_iff]

theorem Known.exists_size_eq_succ (hk : t.Known type) : ∃ size, t.size = size + 1 :=
  Nat.exists_eq_succ_of_ne_zero (((Nat.zero_le _).trans_lt hk).ne')

/-- A class is followed by the chain of its parent. -/
theorem ancestors_of_parent {info : ClassInfo} (hshape : t.shape type = .cls info)
    (hparent : info.parent = some above) :
    t.ancestors type = type :: t.chainWithin t.size above := by
  simp [ancestors, above?, hshape, hparent]

/-- The two ways up from an applied generic: as the first type of a chain it is followed by its
generic class, as a later one by what stands above that. -/
theorem ancestors_of_applied {args : List TypeId} (hf : t.Founded)
    (hshape : t.shape type = .applied generic args) :
    ∃ rest, t.ancestors type = type :: generic :: rest ∧
      t.chainWithin t.size type = type :: rest := by
  obtain ⟨hk, hbelow⟩ := hf.below_of_shape hshape (by simp)
  have hgeneric : t.Known generic := hbelow.trans hk
  have hparent : t.parent? type = t.parent? generic := by
    have hdepth : t.parentWithin t.size generic = t.parentWithin (t.size + 1) generic :=
      parentWithin_eq hf (.refl t) hgeneric (Nat.lt_succ_of_lt hgeneric) hgeneric
    rw [parent?, parentWithin, hshape]
    exact hdepth
  obtain ⟨size, hsize⟩ := hk.exists_size_eq_succ
  cases habove : t.parent? generic with
  | none =>
    refine ⟨[], ?_, ?_⟩
    · simp [ancestors, above?, hshape, hsize, chainWithin, habove]
    · simp [hsize, chainWithin, hparent, habove]
  | some above =>
    refine ⟨t.chainWithin size above, ?_, ?_⟩
    · simp [ancestors, above?, hshape, hsize, chainWithin, habove]
    · simp [hsize, chainWithin, hparent, habove]

/-- What stands on the chain of a type is among its ancestors. -/
theorem mem_ancestors_of_mem_chainWithin (hf : t.Founded) (hk : t.Known type)
    (h : x ∈ t.chainWithin t.size type) : x ∈ t.ancestors type := by
  cases hshape : t.shape type with
  | cls info =>
    rwa [chainWithin_eq_ancestors hf hshape hk] at h
  | applied generic args =>
    obtain ⟨rest, hancestors, hchain⟩ := ancestors_of_applied hf hshape
    rw [hchain, List.mem_cons] at h
    rw [hancestors]
    rcases h with rfl | h
    · exact List.mem_cons_self
    · exact List.mem_cons_of_mem _ (List.mem_cons_of_mem _ h)
  | _ =>
    have hparent : t.parent? type = none := by simp [parent?, parentWithin, hshape]
    have hself : x = type := by
      cases hsize : t.size with
      | zero => simp [hsize, chainWithin] at h
      | succ size => simpa [hsize, chainWithin, hparent] using h
    rw [hself]
    exact self_mem_ancestors t type

/-! ## Going down and going up -/

/-- On the way from a base down to a class there are only classes. -/
theorem StandsBelow.isClass_between (h : t.StandsBelow base type) (hf : t.Founded)
    (htype : ∃ info, t.shape type = .cls info) :
    ∀ x ∈ t.ancestors type, base ∈ t.ancestors x → ∃ info, t.shape x = .cls info := by
  induction h with
  | refl =>
    intro x hx hbase
    obtain ⟨info, hshape⟩ := htype
    have hk : t.Known base := known_of_shape_ne (by simp [hshape])
    rw [ancestors_antisymm hf hk hx hbase]
    exact ⟨info, hshape⟩
  | @tail middle type _ hstep ih =>
    intro x hx hbase
    obtain ⟨⟨middleInfo, hmiddle⟩, hparent⟩ := hf.mem_subclassesOf_iff.1 hstep
    obtain ⟨info, hshape, hinfo⟩ := parentOf?_eq_some_iff.1 hparent
    have hk : t.Known middle := known_of_shape_ne (by simp [hmiddle])
    rw [ancestors_of_parent hshape hinfo, chainWithin_eq_ancestors hf hmiddle hk,
      List.mem_cons] at hx
    rcases hx with rfl | hx
    · exact htype
    · exact ih ⟨middleInfo, hmiddle⟩ x hx hbase

/-- A type stands below an ancestor that it reaches through classes only. -/
theorem standsBelow_of_classes_between (hf : t.Founded) (hk : t.Known type)
    (hbase : base ∈ t.ancestors type)
    (hclasses : ∀ x ∈ t.ancestors type, base ∈ t.ancestors x → ∃ info, t.shape x = .cls info) :
    t.StandsBelow base type := by
  induction hk using known_induction hf with
  | step type hk ih =>
    obtain ⟨info, hshape⟩ := hclasses type (self_mem_ancestors t type) hbase
    cases hparent : info.parent with
    | none =>
      have hself : base = type := by simpa [ancestors, above?, hshape, hparent] using hbase
      rw [hself]
      exact .refl
    | some above =>
      have habove : t.above? type = some above := by simp [above?, hshape, hparent]
      have hkAbove : t.Known above := (above?_lt hf hk habove).trans hk
      have hchain := ancestors_of_parent hshape hparent
      rw [hchain, List.mem_cons] at hbase
      rcases hbase with rfl | hbase
      · exact .refl
      -- The superclass lies between the class and the base, so it is a class and lists it.
      have hmem : above ∈ t.ancestors type := by
        obtain ⟨size, hsize⟩ := hk.exists_size_eq_succ
        rw [hchain, hsize, chainWithin]
        exact List.mem_cons_of_mem _ List.mem_cons_self
      have hbaseAbove := mem_ancestors_of_mem_chainWithin hf hkAbove hbase
      obtain ⟨aboveInfo, haboveShape⟩ := hclasses above hmem hbaseAbove
      have hsub : ∀ x ∈ t.ancestors above, x ∈ t.ancestors type := by
        intro x hx
        rw [hchain, chainWithin_eq_ancestors hf haboveShape hkAbove]
        exact List.mem_cons_of_mem _ hx
      have hlisted : type ∈ t.subclassesOf above :=
        hf.mem_subclassesOf_iff.2 ⟨⟨aboveInfo, haboveShape⟩,
          parentOf?_eq_some_iff.2 ⟨info, hshape, hparent⟩⟩
      exact (ih above habove hbaseAbove fun x hx => hclasses x (hsub x hx)).tail hlisted

theorem descendantsWithin_nodup {found : List TypeId} (depth : Nat) (base : TypeId)
    (h : found.Nodup) : (t.descendantsWithin depth found base).Nodup := by
  induction depth generalizing base found with
  | zero => exact h
  | succ depth ih =>
    have hfold : ∀ (subclasses : List TypeId) {found : List TypeId}, found.Nodup →
        (subclasses.foldl (t.descendantsWithin depth) found).Nodup := by
      intro subclasses
      induction subclasses with
      | nil => exact id
      | cons first rest ihrest => exact fun hfound => ihrest (ih first hfound)
    rw [descendantsWithin]
    split
    next info _ =>
      apply hfold
      split
      · exact h
      · exact addNew_nodup h base
    next => exact h

/-- The concrete types of a hierarchy are the classes that are not abstract, have the base among
their ancestors, and are led there by classes only; each of them is listed once. -/
theorem Reached.mem_hierarchy_iff_isSubclass {hierarchy : TypeId} (h : t.Reached)
    (hshape : t.shape hierarchy = .hierarchy base) :
    (t.concreteTypes hierarchy).Nodup ∧
      ∀ c, c ∈ t.concreteTypes hierarchy ↔
        t.isAbstract c = false ∧ t.isSubclass c base = true ∧
          ∀ x ∈ t.ancestors c, t.isSubclass x base = true → (t.classInfo? x).isSome = true := by
  have hf := h.regular.founded
  refine ⟨?_, fun c => ?_⟩
  · simp only [concreteTypes, hshape, addConcrete]
    exact descendantsWithin_nodup _ base List.nodup_nil
  rw [mem_concreteTypes_hierarchy hf hshape]
  simp only [isSubclass_iff, isSome_classInfo?]
  constructor
  · rintro ⟨hbelow, info, hc, habstract⟩
    refine ⟨?_, hbelow.mem_ancestors hf, hbelow.isClass_between hf ⟨info, hc⟩⟩
    rw [isAbstract, hc]
    exact habstract
  · rintro ⟨habstract, hbase, hclasses⟩
    obtain ⟨info, hc⟩ := hclasses c (self_mem_ancestors t c) hbase
    rw [isAbstract, hc] at habstract
    exact ⟨standsBelow_of_classes_between hf (known_of_shape_ne (by simp [hc])) hbase hclasses,
      info, hc, habstract⟩

/-! ## A class below an applied generic -/

def sizeDecl : MethodDecl :=
  .generated "size" [] (.generated (.int 1))

/-- A class `Base`, a generic class `Box(T)` below it with a method `size`, a class `Small` below
`Box(Int32)`, and the hierarchy `Base+`. -/
def boxed : TypeTable :=
  let base := (declareClass "Base" none false [] standard).2
  let box := (declareClass "Box" (some ⟨14⟩) false ["T"] base).2
  let sized := (register ⟨15⟩ sizeDecl .user box).2
  let applied := (apply ⟨15⟩ [.int32] sized).2
  (hierarchy ⟨14⟩ (declareClass "Small" (some ⟨16⟩) false [] applied).2).2

theorem boxed_reached : boxed.Reached := by
  refine .hierarchy (.declareClass (.apply (.register (.declareClass
    (.declareClass .standard _ _ _ _ (by simp)) _ _ _ _ ?_) _ _ _) ?_ _) _ _ _ _ ?_) ?_
  · intro above habove
    cases habove
    decide +kernel
  · decide +kernel
  · intro above habove
    cases habove
    decide +kernel
  · decide +kernel

theorem boxed_facts :
    (boxed.shape ⟨18⟩ = .hierarchy ⟨14⟩ ∧
      boxed.shape ⟨17⟩ = .cls ⟨"Small", some ⟨16⟩, false, [], []⟩ ∧
      boxed.shape ⟨16⟩ = .applied ⟨15⟩ [.int32]) ∧
    (boxed.isAbstract ⟨15⟩ = false ∧ boxed.isSubclass ⟨15⟩ ⟨14⟩ = true ∧
      ∀ x ∈ boxed.ancestors ⟨15⟩, boxed.isSubclass x ⟨14⟩ = true →
        (boxed.classInfo? x).isSome = true) ∧
    ((boxed.classInfo? ⟨17⟩).isSome = true ∧ boxed.isAbstract ⟨17⟩ = false ∧
      boxed.isSubclass ⟨17⟩ ⟨14⟩ = true ∧ (⟨17⟩ : TypeId) ∉ boxed.concreteTypes ⟨18⟩) ∧
    (boxed.ancestors ⟨16⟩).drop 2 = [⟨14⟩, .reference, .object] ∧
    boxed.methodsNamed ⟨17⟩ "size"
      ≠ boxed.methods.own ⟨17⟩ "size" ++ boxed.methodsNamed ⟨16⟩ "size" := by
  decide +kernel

/-- `Box` is a concrete type of `Base+`, as it stands below `Base`. -/
theorem mem_hierarchy_iff_isSubclass_boxed :
    boxed.Reached ∧ boxed.shape ⟨18⟩ = .hierarchy ⟨14⟩ ∧ (boxed.concreteTypes ⟨18⟩).Nodup ∧
      (⟨15⟩ : TypeId) ∈ boxed.concreteTypes ⟨18⟩ := by
  obtain ⟨⟨hshape, -⟩, hbox, -⟩ := boxed_facts
  obtain ⟨hnodup, hmem⟩ := boxed_reached.mem_hierarchy_iff_isSubclass hshape
  exact ⟨boxed_reached, hshape, hnodup, (hmem ⟨15⟩).2 hbox⟩

/-- `Small` is a concrete class and `Base` is among its ancestors, but it is no concrete type of
`Base+`. -/
theorem not_mem_hierarchy_boxed :
    boxed.Reached ∧ boxed.shape ⟨18⟩ = .hierarchy ⟨14⟩ ∧ (boxed.classInfo? ⟨17⟩).isSome = true ∧
      boxed.isAbstract ⟨17⟩ = false ∧ boxed.isSubclass ⟨17⟩ ⟨14⟩ = true ∧
      (⟨17⟩ : TypeId) ∉ boxed.concreteTypes ⟨18⟩ :=
  ⟨boxed_reached, boxed_facts.1.1, boxed_facts.2.2.1⟩

/-! ## Methods -/

/-- The methods of a name that the types of a chain have themselves. -/
def ownAlong (t : TypeTable) (name : String) (chain : List TypeId) : List MethodId :=
  chain.flatMap (t.methods.own · name)

/-- Classes and applied generics answer to the methods of their ancestors, in order. -/
theorem methodsNamed_eq_ownAlong (h : t.isClass type = true) :
    t.methodsNamed type name = t.ownAlong name (t.ancestors type) := by
  rw [isClass] at h
  split at h
  next info hshape =>
    simp [methodsNamed, methodChain, hshape, isMetaclass, ancestors, ownAlong]
  next generic args hshape =>
    simp [methodsNamed, methodChain, hshape, isMetaclass, ancestors, ownAlong]
  next => simp at h

/-- A class answers to its own methods and then to those of the class above it. -/
theorem methodsNamed_of_above {info aboveInfo : ClassInfo} (hf : t.Founded)
    (hshape : t.shape type = .cls info) (hparent : info.parent = some above)
    (haboveShape : t.shape above = .cls aboveInfo) :
    t.methodsNamed type name = t.methods.own type name ++ t.methodsNamed above name := by
  have hkAbove : t.Known above := known_of_shape_ne (by simp [haboveShape])
  rw [methodsNamed_eq_ownAlong (by simp [isClass, hshape]),
    methodsNamed_eq_ownAlong (by simp [isClass, haboveShape]),
    ancestors_of_parent hshape hparent, chainWithin_eq_ancestors hf haboveShape hkAbove,
    ownAlong, List.flatMap_cons, ownAlong]

/-- A class below another one answers to its own methods and then to those of that class.  Below
an applied generic it answers to its own methods, to those of the applied generic and to those
from above the generic class, but not to those of the generic class itself. -/
theorem Reached.methodsNamed_inherits {info : ClassInfo} (h : t.Reached)
    (hshape : t.shape c = .cls info) (hparent : info.parent = some above) (name : String) :
    (∀ aboveInfo, t.shape above = .cls aboveInfo →
      t.methodsNamed c name = t.methods.own c name ++ t.methodsNamed above name) ∧
    ∀ generic args, t.shape above = .applied generic args →
      t.methodsNamed above name
        = t.methods.own above name ++ t.methods.own generic name
          ++ t.ownAlong name ((t.ancestors above).drop 2) ∧
      t.methodsNamed c name
        = t.methods.own c name ++ t.methods.own above name
          ++ t.ownAlong name ((t.ancestors above).drop 2) := by
  have hf := h.regular.founded
  refine ⟨fun aboveInfo haboveShape => methodsNamed_of_above hf hshape hparent haboveShape, ?_⟩
  intro generic args happlied
  obtain ⟨rest, hancestors, hchain⟩ := ancestors_of_applied hf happlied
  rw [methodsNamed_eq_ownAlong (by simp [isClass, happlied]),
    methodsNamed_eq_ownAlong (by simp [isClass, hshape]), ancestors_of_parent hshape hparent,
    hancestors, hchain]
  simp [ownAlong]

/-- `Small` answers to the `to_s` of what stands above `Box`. -/
theorem methodsNamed_inherits_boxed :
    boxed.Reached ∧
      boxed.shape ⟨17⟩ = .cls ⟨"Small", some ⟨16⟩, false, [], []⟩ ∧
      boxed.shape ⟨16⟩ = .applied ⟨15⟩ [.int32] ∧
      boxed.methodsNamed ⟨17⟩ "to_s"
        = boxed.methods.own ⟨17⟩ "to_s" ++ boxed.methods.own ⟨16⟩ "to_s"
          ++ boxed.ownAlong "to_s" [⟨14⟩, .reference, .object] := by
  obtain ⟨⟨-, hshape, happlied⟩, -, -, hchain, -⟩ := boxed_facts
  refine ⟨boxed_reached, hshape, happlied, ?_⟩
  rw [← hchain]
  exact ((boxed_reached.methodsNamed_inherits hshape rfl "to_s").2 ⟨15⟩ [.int32] happlied).2

/-- `Box(Int32)` answers to the `size` of `Box`, and its subclass `Small` to no `size`. -/
theorem methodsNamed_not_inherited_boxed :
    boxed.Reached ∧
      boxed.shape ⟨17⟩ = .cls ⟨"Small", some ⟨16⟩, false, [], []⟩ ∧
      boxed.shape ⟨16⟩ = .applied ⟨15⟩ [.int32] ∧
      boxed.methodsNamed ⟨17⟩ "size"
        ≠ boxed.methods.own ⟨17⟩ "size" ++ boxed.methodsNamed ⟨16⟩ "size" := by
  obtain ⟨⟨-, hshape, happlied⟩, -, -, -, hsize⟩ := boxed_facts
  exact ⟨boxed_reached, hshape, happlied, hsize⟩

end Callsite.TypeTable
