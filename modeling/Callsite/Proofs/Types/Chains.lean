import Callsite.Proofs.Types.Descendants

/-!
# Chains of ancestors

The ancestors of a type are listed by falling numbers, so the first ancestor that
two types share is the lowest one, whichever of them the search starts from.  When
only classes stand above other types, the ancestors form a forest: the ancestors of
an ancestor are ancestors, and any two ancestors of one type are comparable.
-/

namespace Callsite.TypeTable

variable {t t' : TypeTable} {type above base a b c x : TypeId} {info : ClassInfo}

/-! ## Falling numbers -/

theorem chainWithin_pairwise (hf : t.Founded) (hk : t.Known type) (depth : Nat) :
    (t.chainWithin depth type).Pairwise fun a b => b.index < a.index := by
  induction depth generalizing type with
  | zero => exact List.Pairwise.nil
  | succ depth ih =>
    rw [chainWithin]
    cases hparent : t.parent? type with
    | none => exact List.pairwise_singleton _ _
    | some above =>
      have hlt := parent?_lt hf hk hparent
      have hknown : t.Known above := hlt.trans hk
      refine List.pairwise_cons.2 ⟨fun other hother => ?_, ih hknown⟩
      exact (le_of_mem_chainWithin hf hknown hother).trans_lt hlt

theorem ancestors_pairwise (hf : t.Founded) (hk : t.Known type) :
    (t.ancestors type).Pairwise fun a b => b.index < a.index := by
  rw [ancestors]
  cases habove : t.above? type with
  | none => exact List.pairwise_singleton _ _
  | some above =>
    have hlt := above?_lt hf hk habove
    have hknown : t.Known above := hlt.trans hk
    refine List.pairwise_cons.2 ⟨fun other hother => ?_, chainWithin_pairwise hf hknown _⟩
    exact (le_of_mem_chainWithin hf hknown hother).trans_lt hlt

/-- In a list with falling numbers the first match is the match with the largest number. -/
theorem find?_eq_some_iff_of_falling {l : List TypeId} {p : TypeId → Bool}
    (hl : l.Pairwise fun a b => b.index < a.index) :
    l.find? p = some x ↔ x ∈ l ∧ p x = true ∧ ∀ y ∈ l, p y = true → y.index ≤ x.index := by
  induction l with
  | nil => simp
  | cons first rest ih =>
    obtain ⟨hfirst, hrest⟩ := List.pairwise_cons.1 hl
    cases hp : p first with
    | true =>
      rw [List.find?_cons_of_pos hp]
      constructor
      · rintro h
        cases h
        refine ⟨List.mem_cons_self, hp, fun y hy _ => ?_⟩
        rcases List.mem_cons.1 hy with rfl | hy
        · exact Nat.le_refl _
        · exact (hfirst y hy).le
      · rintro ⟨hmem, -, hmax⟩
        rcases List.mem_cons.1 hmem with rfl | hmem
        · rfl
        · have hle := hmax first List.mem_cons_self hp
          exact absurd (hfirst x hmem) (Nat.not_lt.2 hle)
    | false =>
      have hneg : ¬ p first = true := by simp [hp]
      rw [List.find?_cons_of_neg hneg, ih hrest]
      constructor
      · rintro ⟨hmem, hpx, hmax⟩
        refine ⟨List.mem_cons_of_mem _ hmem, hpx, fun y hy hpy => ?_⟩
        rcases List.mem_cons.1 hy with rfl | hy
        · exact absurd hpy hneg
        · exact hmax y hy hpy
      · rintro ⟨hmem, hpx, hmax⟩
        rcases List.mem_cons.1 hmem with rfl | hmem
        · exact absurd hpx hneg
        · exact ⟨hmem, hpx, (List.forall_mem_cons.1 hmax).2⟩

theorem isSubclass_iff : t.isSubclass a b = true ↔ b ∈ t.ancestors a := by
  simp [isSubclass]

theorem self_mem_ancestors (t : TypeTable) (type : TypeId) : type ∈ t.ancestors type :=
  List.mem_cons_self

/-- A common base is the lowest ancestor that the classes of two members share. -/
structure IsLowestShared (t : TypeTable) (a b base : TypeId) : Prop where
  left : base ∈ t.ancestors a
  right : base ∈ t.ancestors b
  lowest : ∀ x ∈ t.ancestors a, x ∈ t.ancestors b → x.index ≤ base.index

theorem IsLowestShared.symm (h : t.IsLowestShared a b base) : t.IsLowestShared b a base :=
  ⟨h.right, h.left, fun x hb ha => h.lowest x ha hb⟩

theorem find?_isSubclass_iff (hf : t.Founded) (hk : t.Known a) :
    (t.ancestors a).find? (t.isSubclass b) = some base ↔ t.IsLowestShared a b base := by
  rw [find?_eq_some_iff_of_falling (ancestors_pairwise hf hk)]
  simp only [isSubclass_iff]
  exact ⟨fun h => ⟨h.1, h.2.1, h.2.2⟩, fun h => ⟨h.left, h.right, h.lowest⟩⟩

theorem commonBase?_eq_some_iff_lowest (hf : t.Founded) (hk : t.Known a) :
    t.commonBase? a b = some base ↔
      ∃ ca cb, t.mergeClass? a = some ca ∧ t.mergeClass? b = some cb ∧
        t.IsLowestShared ca cb base ∧ isRoot base = false := by
  rw [commonBase?_eq_some_iff]
  refine exists_congr fun ca => exists_congr fun cb => and_congr_right fun hca => ?_
  rw [find?_isSubclass_iff hf (known_of_mergeClass? hf hk hca)]

/-- The common base of two members does not depend on their order. -/
theorem commonBase?_comm (hf : t.Founded) (ha : t.Known a) (hb : t.Known b) :
    t.commonBase? a b = t.commonBase? b a := by
  have hswap : ∀ x y, t.Known x → t.Known y → ∀ base,
      t.commonBase? x y = some base → t.commonBase? y x = some base := by
    intro x y hx hy base h
    obtain ⟨cx, cy, hcx, hcy, hlowest, hroot⟩ := (commonBase?_eq_some_iff_lowest hf hx).1 h
    exact (commonBase?_eq_some_iff_lowest hf hy).2 ⟨cy, cx, hcy, hcx, hlowest.symm, hroot⟩
  apply Option.ext
  intro base
  exact ⟨hswap a b ha hb base, hswap b a hb ha base⟩

/-! ## Forests of classes -/

/-- What is recorded of a class. -/
def classInfo? (t : TypeTable) (type : TypeId) : Option ClassInfo :=
  match t.shape type with
  | .cls info => some info
  | _ => none

theorem classInfo?_eq_some_iff : t.classInfo? type = some info ↔ t.shape type = .cls info := by
  rw [classInfo?]
  split
  next found hshape => simp [hshape]
  next hshape => simpa using hshape info

/-- Superclasses are classes: what stands directly above a type, the parent of a class or the
class of an applied generic, is a class. -/
def OverClasses (t : TypeTable) : Prop :=
  ∀ type above, t.above? type = some above → ∃ info, t.shape above = .cls info

theorem overClasses_iff :
    t.OverClasses ↔ ∀ i < t.size, ∀ above ∈ t.above? ⟨i⟩, (t.classInfo? above).isSome := by
  constructor
  · intro hc i _ above habove
    obtain ⟨info, hshape⟩ := hc ⟨i⟩ above habove
    simp [classInfo?, hshape]
  · intro h type above habove
    have hk : t.Known type := by
      refine known_of_shape_ne fun hshape => ?_
      simp [above?, hshape] at habove
    obtain ⟨info, hinfo⟩ := Option.isSome_iff_exists.1 (h type.index hk above habove)
    exact ⟨info, classInfo?_eq_some_iff.1 hinfo⟩

instance (t : TypeTable) : Decidable t.OverClasses :=
  decidable_of_iff _ overClasses_iff.symm

section

variable (hf : t.Founded)
include hf

theorem chainWithin_eq_ancestors {depth : Nat} (hshape : t.shape type = .cls info)
    (hd : type.index < depth) : t.chainWithin depth type = t.ancestors type := by
  have hk : t.Known type := known_of_shape_ne (by simp [hshape])
  obtain _ | depth := depth
  · cases hd
  have hparent : t.parent? type = t.above? type := by
    rw [parent?, parentWithin, above?, hshape]
  rw [chainWithin, ancestors, hparent]
  cases habove : t.above? type with
  | none => rfl
  | some above =>
    have hlt := above?_lt hf hk habove
    have hsame : t.chainWithin t.size above = t.chainWithin depth above :=
      chainWithin_eq hf (.refl t) (hlt.trans hk) (by omega) (hlt.trans hk)
    simp only [hsame]

/-- An ancestor is the type itself or an ancestor of what stands above it. -/
theorem mem_ancestors_iff (hc : t.OverClasses) (hk : t.Known type) : x ∈ t.ancestors type ↔
      x = type ∨ ∃ above, t.above? type = some above ∧ x ∈ t.ancestors above := by
  rw [ancestors]
  cases habove : t.above? type with
  | none => simp
  | some above =>
    obtain ⟨info, hshape⟩ := hc type above habove
    have hlt := above?_lt hf hk habove
    have hchain := chainWithin_eq_ancestors hf hshape (hlt.trans hk)
    simp [hchain]

/-- Walking up a forest: a property of a type follows from that of the class above it. -/
theorem known_induction {P : (type : TypeId) → t.Known type → Prop}
    (step : ∀ (type : TypeId) (hk : t.Known type),
      (∀ above (habove : t.above? type = some above),
        P above ((above?_lt hf hk habove).trans hk)) → P type hk)
    {type : TypeId} (hk : t.Known type) : P type hk :=
  step type hk fun _ habove =>
    known_induction step ((above?_lt hf hk habove).trans hk)
termination_by type.index
decreasing_by exact above?_lt hf hk habove

theorem ancestors_antisymm (hk : t.Known b) (ha : a ∈ t.ancestors b) (hb : b ∈ t.ancestors a) :
    a = b := by
  have hle := le_of_mem_ancestors hf hk ha
  have hge := le_of_mem_ancestors hf (known_of_mem_ancestors hf hk ha) hb
  exact congrArg TypeId.mk (Nat.le_antisymm hle hge)

theorem ancestors_trans (hc : t.OverClasses) (hk : t.Known c) (hb : b ∈ t.ancestors c)
    (ha : a ∈ t.ancestors b) : a ∈ t.ancestors c := by
  induction hk using known_induction hf with
  | step type hk ih =>
    rcases (mem_ancestors_iff hf hc hk).1 hb with rfl | ⟨above, habove, hb⟩
    · exact ha
    · exact (mem_ancestors_iff hf hc hk).2 (Or.inr ⟨above, habove, ih above habove hb⟩)

/-- Two ancestors of one type are comparable. -/
theorem ancestors_total (hc : t.OverClasses) (hk : t.Known c) (ha : a ∈ t.ancestors c)
    (hb : b ∈ t.ancestors c) : a ∈ t.ancestors b ∨ b ∈ t.ancestors a := by
  induction hk using known_induction hf with
  | step type hk ih =>
    rcases (mem_ancestors_iff hf hc hk).1 ha with rfl | ⟨above, habove, ha'⟩
    · exact Or.inr hb
    rcases (mem_ancestors_iff hf hc hk).1 hb with rfl | ⟨above', habove', hb'⟩
    · exact Or.inl ha
    obtain rfl := Option.some.inj (habove.symm.trans habove')
    exact ih above habove ha' hb'

end

/-- A shared ancestor is an ancestor of the lowest one. -/
theorem IsLowestShared.mem_ancestors (h : t.IsLowestShared a b base) (hf : t.Founded)
    (hc : t.OverClasses) (hk : t.Known a) (ha : x ∈ t.ancestors a) (hb : x ∈ t.ancestors b) :
    x ∈ t.ancestors base := by
  rcases ancestors_total hf hc hk ha h.left with hx | hx
  · exact hx
  · have hle := le_of_mem_ancestors hf (known_of_mem_ancestors hf hk ha) hx
    have hge := h.lowest x ha hb
    obtain rfl : base = x := congrArg TypeId.mk (Nat.le_antisymm hle hge)
    exact hx

/-- A class stands below its ancestors. -/
theorem standsBelow_of_mem_ancestors (hf : t.Founded) (hc : t.OverClasses)
    (hshape : t.shape type = .cls info) (h : base ∈ t.ancestors type) :
    t.StandsBelow base type := by
  have hk : t.Known type := known_of_shape_ne (by simp [hshape])
  induction hk using known_induction hf generalizing info with
  | step type hk ih =>
    rcases (mem_ancestors_iff hf hc hk).1 h with rfl | ⟨above, habove, h⟩
    · exact .refl
    · obtain ⟨aboveInfo, haboveShape⟩ := hc type above habove
      have hparent : t.parentOf? type = some above := by
        simpa [parentOf?, above?, hshape] using habove
      exact (ih above habove haboveShape h).tail
        (hf.mem_subclassesOf_iff.2 ⟨⟨aboveInfo, haboveShape⟩, hparent⟩)

/-- What stands below a class has it among its ancestors. -/
theorem StandsBelow.mem_ancestors (h : t.StandsBelow base type) (hf : t.Founded) :
    base ∈ t.ancestors type := by
  by_cases heq : base = type
  · rw [heq]
    exact self_mem_ancestors t type
  · exact List.mem_of_mem_drop (mem_ancestors_of_standsBelow hf h heq)

end Callsite.TypeTable
