import Callsite.Proofs.Types.Building

/-!
# Ancestors in founded tables

In a founded table the walks upwards get to smaller numbers at every step.  They
therefore end before their bound does, and give the same in every later table.
-/

namespace Callsite.TypeTable

variable {t t' : TypeTable} {type above other : TypeId} {depth depth' : Nat}

/-! ## Going up -/

section

variable (hf : t.Founded) (hk : t.Known type)
include hf hk

theorem parentWithin_lt (h : t.parentWithin depth type = some above) :
    above.index < type.index := by
  induction depth generalizing type with
  | zero => simp [parentWithin] at h
  | succ depth ih =>
    have hbelow := hf.below type hk
    rw [parentWithin] at h
    split at h
    next info hshape =>
      rw [hshape] at hbelow
      exact hbelow above h
    next generic args hshape =>
      rw [hshape] at hbelow
      have hlt : generic.index < type.index := hbelow
      exact Nat.lt_trans (ih (Nat.lt_trans hlt hk) h) hlt
    next => simp at h

theorem parent?_lt (h : t.parent? type = some above) : above.index < type.index :=
  parentWithin_lt hf hk h

theorem above?_lt (h : t.above? type = some above) : above.index < type.index := by
  have hbelow := hf.below type hk
  rw [above?] at h
  split at h
  next info hshape =>
    rw [hshape] at hbelow
    exact hbelow above h
  next generic args hshape =>
    rw [hshape] at hbelow
    cases h
    exact hbelow
  next => simp at h

theorem le_of_mem_chainWithin (h : other ∈ t.chainWithin depth type) :
    other.index ≤ type.index := by
  induction depth generalizing type with
  | zero => simp [chainWithin] at h
  | succ depth ih =>
    rw [chainWithin, List.mem_cons] at h
    rcases h with rfl | h
    · exact Nat.le_refl _
    · split at h
      next => simp at h
      next above hparent =>
        have hlt := parent?_lt hf hk hparent
        exact Nat.le_of_lt (Nat.lt_of_le_of_lt (ih (Nat.lt_trans hlt hk) h) hlt)

theorem le_of_mem_ancestors (h : other ∈ t.ancestors type) : other.index ≤ type.index := by
  rw [ancestors, List.mem_cons] at h
  rcases h with rfl | h
  · exact Nat.le_refl _
  · split at h
    next => simp at h
    next above habove =>
      have hlt := above?_lt hf hk habove
      have hle := le_of_mem_chainWithin hf (Nat.lt_trans hlt hk) h
      exact Nat.le_of_lt (Nat.lt_of_le_of_lt hle hlt)

theorem known_of_mem_ancestors (h : other ∈ t.ancestors type) : t.Known other :=
  Nat.lt_of_le_of_lt (le_of_mem_ancestors hf hk h) hk

end

/-! ## The same ancestors later on -/

/-- Enough depth gives the parent, in this table and in any later one. -/
theorem parentWithin_eq (hf : t.Founded) (hg : t.Grows t') (hk : t.Known type)
    (hd : type.index < depth) (hd' : type.index < depth') :
    t'.parentWithin depth' type = t.parentWithin depth type := by
  induction depth generalizing type depth' with
  | zero => cases hd
  | succ depth ih =>
    obtain _ | depth' := depth'
    · cases hd'
    have hbelow := hf.below type hk
    have hgrows := hg.shape type hk
    rw [parentWithin, parentWithin]
    generalize t.shape type = a at hbelow hgrows
    generalize t'.shape type = b at hgrows
    cases hgrows with
    | same =>
      cases a with
      | applied generic args =>
        have hlt : generic.index < type.index := hbelow
        have hg' : generic.index < depth' := by omega
        exact ih (Nat.lt_trans hlt hk) (by omega) hg'
      | _ => rfl
    | cls | library => rfl

theorem Grows.parent?_eq (hg : t.Grows t') (hf : t.Founded) (hk : t.Known type) :
    t'.parent? type = t.parent? type :=
  parentWithin_eq hf hg hk (Nat.lt_succ_of_lt hk) (Nat.lt_succ_of_lt (hg.known hk))

theorem Grows.above?_eq (hg : t.Grows t') (hk : t.Known type) : t'.above? type = t.above? type := by
  have hgrows := hg.shape type hk
  rw [above?, above?]
  generalize t.shape type = a at hgrows
  generalize t'.shape type = b at hgrows
  cases hgrows with
  | same | cls | library => rfl

theorem chainWithin_eq (hf : t.Founded) (hg : t.Grows t') (hk : t.Known type)
    (hd : type.index < depth) (hd' : type.index < depth') :
    t'.chainWithin depth' type = t.chainWithin depth type := by
  induction depth generalizing type depth' with
  | zero => cases hd
  | succ depth ih =>
    obtain _ | depth' := depth'
    · cases hd'
    rw [chainWithin, chainWithin, hg.parent?_eq hf hk]
    cases hparent : t.parent? type with
    | none => rfl
    | some above =>
      have hlt := parent?_lt hf hk hparent
      have hchain : t'.chainWithin depth' above = t.chainWithin depth above :=
        ih (Nat.lt_trans hlt hk) (by omega) (by omega)
      simp only [hchain]

variable (hg : t.Grows t') (hf : t.Founded) (hk : t.Known type)
include hg hf hk

theorem Grows.ancestors_eq : t'.ancestors type = t.ancestors type := by
  rw [ancestors, ancestors, hg.above?_eq hk]
  cases habove : t.above? type with
  | none => rfl
  | some above =>
    have hlt : above.index < t.size := Nat.lt_trans (above?_lt hf hk habove) hk
    have hlt' : above.index < t'.size := Nat.lt_of_lt_of_le hlt hg.size_le
    simp only [chainWithin_eq hf hg hlt hlt hlt']

theorem Grows.isSubclass_eq (ancestor : TypeId) :
    t'.isSubclass type ancestor = t.isSubclass type ancestor := by
  rw [isSubclass, isSubclass, hg.ancestors_eq hf hk]

end Callsite.TypeTable
