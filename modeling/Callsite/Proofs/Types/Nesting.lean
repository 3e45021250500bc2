import Callsite.Proofs.Types.Regular

/-!
# Nested arrays

Arrays of a type, united with `Nil`, give another type.  Doing this again and again never comes back
to a type that was there before, so each time the table has a deeper type.
-/

namespace Callsite

namespace TypeTable

variable {t t' : TypeTable} {item v u : TypeId}

/-- The type `u` is `Nil | v` for the type `v` of arrays of another type than `u`. -/
structure Nests (t : TypeTable) (item v u : TypeId) : Prop where
  founded : t.Founded
  nil : ∃ info, t.shape .nil = .cls info
  array : t.find? (.applied .array [item]) = some v
  union : t.find? (.union [.nil, v]) = some u
  ne_item : u ≠ item

theorem Founded.known_nil (hf : t.Founded) : t.Known .nil :=
  Nat.lt_trans (by decide) hf.standard

theorem standard_nil : ∃ info, standard.shape .nil = .cls info := by
  obtain ⟨info, hshape, -⟩ := parentOf?_eq_some_iff.1 standard_parentOf?_nil
  exact ⟨info, hshape⟩

theorem nil_lt_array (hf : t.Founded) (h : t.shape v = .applied .array [item]) :
    TypeId.nil.index < v.index := by
  have hbelow := hf.below v (known_of_shape_ne (by simp [h]))
  rw [h] at hbelow
  exact Nat.lt_trans (by decide : TypeId.nil.index < TypeId.array.index) hbelow

/-- `Nil` and an array do not merge. -/
theorem unionOf_of_flatten {types : List TypeId} (hf : t.Founded)
    (harray : t.shape v = .applied .array [item]) (h : t.flatten types = [.nil, v]) :
    unionOf types t = intern (.union [.nil, v]) t := by
  have hv : v ≠ .noReturn := by
    rintro rfl
    exact absurd (hf.noReturn.symm.trans harray) (by simp)
  have hnil : (TypeId.nil != TypeId.noReturn) = true := by decide
  have hunmerged : t.unmerged types = [.nil, v] := by
    simp [unmerged, h, hv, hnil]
  have hapart : t.commonBase? .nil v = none := by
    simp [commonBase?, mergeClass?, harray]
  have hmerge : mergeMembers 2 [.nil, v] t = ([.nil, v], t) := by
    simp [mergeMembers, firstMerge?, mergeWith?, hapart]
  have hsort : TypeId.sort [.nil, v] = [.nil, v] := by
    have hle : TypeId.nil.index ≤ v.index := (nil_lt_array hf harray).le
    simp [TypeId.sort, TypeId.insertSorted, hle]
  rw [unionOf_eq, hunmerged]
  simp only [List.length_cons, List.length_nil, hmerge, ofMembers, hsort]

theorem unionOf_nil (h : ∃ info, t.shape .nil = .cls info) : unionOf [.nil] t = (.nil, t) := by
  obtain ⟨info, hnil⟩ := h
  have hunmerged : t.unmerged [.nil] = [.nil] := by
    simp [unmerged, flatten, hnil, addNew]
  rw [unionOf_eq, hunmerged]
  simp [mergeMembers, firstMerge?, mergeWith?, ofMembers]

theorem arrayOf_extends (hf : t.Founded) (item : TypeId) :
    t.Extends (arrayOf item t).2 ∧
      (arrayOf item t).2.find? (.applied .array [item]) = some (arrayOf item t).1 :=
  intern_builds (by simp) rfl (Nat.lt_trans (by decide) hf.standard : t.Known .array)

/-- Arrays of a type, and their union with `Nil`. -/
theorem nests_arrayOf (hf : t.Founded) (hnil : ∃ info, t.shape .nil = .cls info) (hk : t.Known item)
    (hitem : ∀ v, t.shape v = .applied .array [item] → t.shape item ≠ .union [.nil, v]) :
    (unionOf [.nil, (arrayOf item t).1] (arrayOf item t).2).2.Nests item (arrayOf item t).1
      (unionOf [.nil, (arrayOf item t).1] (arrayOf item t).2).1 := by
  obtain ⟨hextends, harray⟩ := arrayOf_extends hf item
  generalize arrayOf item t = arrays at hextends harray ⊢
  obtain ⟨v, t1⟩ := arrays
  have hf1 : t1.Founded := hextends.founded hf
  have hshape : t1.shape v = .applied .array [item] := shape_of_find? harray
  obtain ⟨info, hclass⟩ := hextends.grows.exists_cls hnil
  have hflat : t1.flatten [.nil, v] = [.nil, v] := by
    have hne : v ≠ .nil := fun heq =>
      (nil_lt_array hf1 hshape).ne' (congrArg TypeId.index heq)
    simp [flatten, hclass, hshape, addNew, hne]
  have hmembers : (Shape.union [.nil, v]).Below t1.size := by
    have hv : v.index < t1.size := known_of_find? harray
    have hnil : TypeId.nil.index < t1.size := hf1.known_nil
    simp [Shape.Below, hv, hnil]
  obtain ⟨hextends2, hunion⟩ := intern_builds (t := t1) (by simp) rfl hmembers
  simp only [unionOf_of_flatten hf1 hshape hflat]
  generalize intern (.union [.nil, v]) t1 = last at hextends2 hunion ⊢
  obtain ⟨u, t2⟩ := last
  refine ⟨hextends2.founded hf1, hextends2.grows.exists_cls ⟨info, hclass⟩,
    hextends2.grows.find?_eq_some (by simp) (by simp) harray, hunion, ?_⟩
  -- Were the union its own item, then so it would have been before.
  rintro rfl
  have hlater : t2.shape u = .union [.nil, v] := shape_of_find? hunion
  have hsame := (hextends.trans hextends2).grows.shape_of_isInterned hk
    (by simp [hlater, Shape.isInterned])
  have hbefore : t.shape u = .union [.nil, v] := hsame ▸ hlater
  have hv : t.Known v := hf.known_of_mem_union hbefore v (by simp)
  have harrays := hextends.grows.shape_of_isInterned hv (by simp [hshape, Shape.isInterned])
  exact hitem v (harrays ▸ hshape) hbefore

namespace Nests

variable (h : t.Nests item v u)
include h

theorem known : t.Known u :=
  known_of_find? h.union

/-- A node that only passes `Nil | v` on has the same type. -/
theorem unionOf_self : unionOf [u] t = (u, t) := by
  have hshape := shape_of_find? h.array
  have hne : v ≠ .nil := fun heq =>
    (nil_lt_array h.founded hshape).ne' (congrArg TypeId.index heq)
  have hflat : t.flatten [u] = [.nil, v] := by
    simp [flatten, shape_of_find? h.union, addNew, hne]
  rw [unionOf_of_flatten h.founded hshape hflat]
  exact intern_of_find? h.union

theorem next : (unionOf [.nil, (arrayOf u t).1] (arrayOf u t).2).2.Nests u (arrayOf u t).1
      (unionOf [.nil, (arrayOf u t).1] (arrayOf u t).2).1 := by
  refine nests_arrayOf h.founded h.nil h.known fun v' harray hunion => h.ne_item ?_
  rw [shape_of_find? h.union] at hunion
  obtain rfl : v = v' := by simpa using hunion
  rw [shape_of_find? h.array] at harray
  exact (by simpa using harray : item = u).symm

/-- The arrays of the next type are others. -/
theorem arrayOf_ne : (arrayOf u t).1 ≠ v := by
  intro heq
  obtain ⟨hextends, harray⟩ := arrayOf_extends h.founded u
  rw [heq] at harray
  have hlater := shape_of_find? harray
  have hsame := hextends.grows.shape_of_isInterned (known_of_find? h.array)
    (by simp [hlater, Shape.isInterned])
  rw [hlater, shape_of_find? h.array] at hsame
  exact h.ne_item (by simpa using hsame)

end Nests

end TypeTable

end Callsite
