import Callsite.Proofs.Types.Ancestors
import Mathlib.Data.List.Sort

/-!
# Unions in growing tables

The union of types in the table is in the table, and once it has been built it is
the same type in every later table: nothing that is declared afterwards changes
which members merge.
-/

namespace Callsite.TypeTable

variable {t t' : TypeTable} {type a b base : TypeId} {types members others front : List TypeId}

/-! ## Members -/

theorem mem_addNew : a ∈ addNew types b ↔ a ∈ types ∨ a = b := by
  rw [addNew]
  split
  next h =>
    have hmem : b ∈ types := by simpa using h
    constructor
    · exact Or.inl
    · rintro (h | rfl)
      · exact h
      · exact hmem
  next => simp

/-- A walk over types that adds what they lead to. -/
theorem mem_foldl_iff {f : List TypeId → TypeId → List TypeId} {P : TypeId → Prop}
    {found : List TypeId} (h : ∀ b ∈ types, ∀ found, a ∈ f found b ↔ a ∈ found ∨ P b) :
    a ∈ types.foldl f found ↔ a ∈ found ∨ ∃ b ∈ types, P b := by
  induction types generalizing found with
  | nil => simp
  | cons b types ih =>
    obtain ⟨hfirst, hrest⟩ := List.forall_mem_cons.1 h
    rw [List.foldl_cons, ih hrest, hfirst, List.exists_mem_cons_iff, or_assoc]

theorem mem_foldl_addNew {found : List TypeId} :
    a ∈ types.foldl addNew found ↔ a ∈ found ∨ a ∈ types := by
  rw [mem_foldl_iff (P := (a = ·)) fun _ _ _ => mem_addNew]
  simp

theorem dropRepeats_sublist (l : List TypeId) : (dropRepeats l).Sublist l := by
  induction l using dropRepeats.induct with
  | case1 x rest ih =>
    rw [dropRepeats, if_pos rfl]
    exact ih.cons x
  | case2 x y rest hne ih =>
    rw [dropRepeats, if_neg hne]
    exact ih.cons_cons x
  | case3 short hshort =>
    rw [dropRepeats.eq_2 short hshort]

theorem sort_eq_insertionSort (types : List TypeId) :
    TypeId.sort types = types.insertionSort (·.index ≤ ·.index) := by
  have hinsert : ∀ a types,
      TypeId.insertSorted a types = types.orderedInsert (·.index ≤ ·.index) a := by
    intro a types
    induction types with
    | nil => rfl
    | cons b types ih => rw [TypeId.insertSorted, ih, List.orderedInsert_cons]
  induction types with
  | nil => rfl
  | cons a types ih => rw [List.insertionSort_cons, ← ih, ← hinsert]; rfl

theorem sort_perm (types : List TypeId) : (TypeId.sort types).Perm types := by
  rw [sort_eq_insertionSort]
  exact List.perm_insertionSort _ types

theorem mem_sort : a ∈ TypeId.sort types ↔ a ∈ types :=
  (sort_perm types).mem_iff

/-! ## What unions are made of -/

theorem known_of_mergeClass? (hf : t.Founded) (hk : t.Known type)
    (h : t.mergeClass? type = some a) : t.Known a := by
  rw [mergeClass?] at h
  split at h
  next info hshape =>
    split at h
    · cases h
      exact hk
    · simp at h
  next base hshape =>
    cases h
    exact hf.known_of_hierarchy hshape
  next => simp at h

/-- How two members have a common base. -/
theorem commonBase?_eq_some_iff :
    t.commonBase? a b = some base ↔
      ∃ ca cb, t.mergeClass? a = some ca ∧ t.mergeClass? b = some cb ∧
        (t.ancestors ca).find? (t.isSubclass cb) = some base ∧ isRoot base = false := by
  simp only [commonBase?, Option.bind_eq_bind, Option.bind_eq_some_iff]
  constructor
  · rintro ⟨ca, hca, cb, hcb, base', hbase, h⟩
    split at h
    · simp at h
    next hroot =>
      cases h
      exact ⟨ca, cb, hca, hcb, hbase, by simpa using hroot⟩
  · rintro ⟨ca, cb, hca, hcb, hbase, hroot⟩
    exact ⟨ca, hca, cb, hcb, base, hbase, by simp [hroot]⟩

theorem known_of_commonBase? (hf : t.Founded) (hk : t.Known a) (h : t.commonBase? a b = some base) :
    t.Known base := by
  obtain ⟨ca, cb, hca, -, hfind, -⟩ := commonBase?_eq_some_iff.1 h
  exact known_of_mem_ancestors hf (known_of_mergeClass? hf hk hca) (List.mem_of_find?_eq_some hfind)

/-- What an argument of a union contributes: a union its members, any other type itself. -/
def spread (t : TypeTable) (type : TypeId) : List TypeId :=
  match t.shape type with
  | .union inner => inner
  | _ => [type]

theorem flatten_eq (t : TypeTable) (types : List TypeId) :
    t.flatten types = (types.flatMap t.spread).foldl addNew [] := by
  rw [flatten]
  generalize ([] : List TypeId) = found
  induction types generalizing found with
  | nil => rfl
  | cons type types ih =>
    rw [List.foldl_cons, ih, List.flatMap_cons, List.foldl_append]
    rw [spread]
    cases t.shape type <;> rfl

theorem mem_flatten : a ∈ t.flatten types ↔ ∃ type ∈ types, a ∈ t.spread type := by
  rw [flatten_eq, mem_foldl_addNew, List.mem_flatMap]
  simp

theorem known_of_mem_spread (hf : t.Founded) (hk : t.Known type) :
    ∀ part ∈ t.spread type, t.Known part := by
  rw [spread]
  split
  next inner hshape => exact hf.known_of_mem_union hshape
  next => exact List.forall_mem_singleton.2 hk

theorem known_of_mem_flatten (hf : t.Founded) (hk : ∀ type ∈ types, t.Known type) :
    ∀ member ∈ t.flatten types, t.Known member := by
  intro member hmember
  obtain ⟨type, htype, hspread⟩ := mem_flatten.1 hmember
  exact known_of_mem_spread hf (hk type htype) member hspread

theorem mergeWith?_split (h : t.mergeWith? a members = some (base, others)) :
    ∃ before b after, members = before ++ b :: after ∧ others = before ++ after ∧
      t.commonBase? a b = some base := by
  induction members generalizing others with
  | nil => simp [mergeWith?] at h
  | cons b rest ih =>
    rw [mergeWith?] at h
    split at h
    next base' hbase =>
      obtain ⟨rfl, rfl⟩ := Prod.mk.inj (Option.some.inj h)
      exact ⟨[], b, rest, rfl, rfl, hbase⟩
    next =>
      obtain ⟨⟨base', others'⟩, hrest, heq⟩ := Option.map_eq_some_iff.1 h
      obtain ⟨rfl, rfl⟩ := Prod.mk.inj heq
      obtain ⟨before, b', after, rfl, rfl, hbase⟩ := ih hrest
      exact ⟨b :: before, b', after, rfl, rfl, hbase⟩

/-- The first merge takes two members out of the list. -/
theorem firstMerge?_split (h : t.firstMerge? members = some (front, base, others)) :
    ∃ a before b after, members = front ++ a :: (before ++ b :: after) ∧
      others = before ++ after ∧ t.commonBase? a b = some base := by
  induction members generalizing front with
  | nil => simp [firstMerge?] at h
  | cons a rest ih =>
    rw [firstMerge?] at h
    split at h
    next base' others' hmerge =>
      obtain ⟨rfl, hpair⟩ := Prod.mk.inj (Option.some.inj h)
      obtain ⟨rfl, rfl⟩ := Prod.mk.inj hpair
      obtain ⟨before, b, after, rfl, rfl, hbase⟩ := mergeWith?_split hmerge
      exact ⟨a, before, b, after, rfl, rfl, hbase⟩
    next =>
      obtain ⟨⟨front', merge⟩, hrest, heq⟩ := Option.map_eq_some_iff.1 h
      obtain ⟨rfl, rfl⟩ := Prod.mk.inj heq
      obtain ⟨a', before, b, after, rfl, rfl, hbase⟩ := ih hrest
      exact ⟨a', before, b, after, rfl, rfl, hbase⟩

/-- What is kept of the members was among them. -/
theorem firstMerge?_mem (h : t.firstMerge? members = some (front, base, others)) :
    (∃ a ∈ members, ∃ b ∈ members, t.commonBase? a b = some base) ∧
      ∀ x, x ∈ front ∨ x ∈ others → x ∈ members := by
  obtain ⟨a, before, b, after, rfl, rfl, hbase⟩ := firstMerge?_split h
  refine ⟨⟨a, by simp, b, by simp, hbase⟩, fun x hx => ?_⟩
  simp only [List.mem_append, List.mem_cons] at hx ⊢
  tauto

/-! ## Building unions -/

theorem hierarchy_builds (hk : t.Known base) :
    Builds (hierarchy base) t fun type t' => t'.find? (.hierarchy base) = some type :=
  intern_builds (by simp) rfl hk

theorem mergeMembers_succ (steps : Nat) (members : List TypeId) (t : TypeTable) :
    mergeMembers (steps + 1) members t =
      match t.firstMerge? members with
      | none => (members, t)
      | some (front, base, others) =>
        mergeMembers steps (dropRepeats (front ++ (hierarchy base t).1 :: others))
          (hierarchy base t).2 := by
  change (match t.firstMerge? members with
    | none => pure members
    | some (front, base, others) => do
      let merged ← hierarchy base
      mergeMembers steps (dropRepeats (front ++ merged :: others)) : Build (List TypeId)) t = _
  cases t.firstMerge? members with
  | none | some => rfl

/-- After a merge all members are still in the table. -/
theorem known_of_mem_merged (hf : t.Founded) (hk : ∀ member ∈ members, t.Known member)
    (hmerge : t.firstMerge? members = some (front, base, others)) :
    Builds (hierarchy base) t fun merged t' =>
      t'.find? (.hierarchy base) = some merged ∧
        ∀ member ∈ dropRepeats (front ++ merged :: others), t'.Known member := by
  obtain ⟨⟨a, ha, b, -, hbase⟩, hothers⟩ := firstMerge?_mem hmerge
  refine (hierarchy_builds (known_of_commonBase? hf (hk a ha) hbase)).mono ?_
  intro merged t' hextends hfind
  refine ⟨hfind, fun member hmember => ?_⟩
  have hmem := (dropRepeats_sublist _).subset hmember
  simp only [List.mem_append, List.mem_cons] at hmem
  rcases hmem with h | rfl | h
  · exact hextends.known (hk member (hothers member (Or.inl h)))
  · exact known_of_find? hfind
  · exact hextends.known (hk member (hothers member (Or.inr h)))

theorem mergeMembers_builds (steps : Nat) (hf : t.Founded)
    (hk : ∀ member ∈ members, t.Known member) :
    Builds (mergeMembers steps members) t fun merged t' => ∀ member ∈ merged, t'.Known member := by
  induction steps generalizing members t with
  | zero => exact Builds.pure hk
  | succ steps ih =>
    rw [Builds, mergeMembers_succ]
    split
    next => exact ⟨.refl t, hk⟩
    next front base others hmerge =>
      obtain ⟨hextends, -, hknown⟩ := known_of_mem_merged hf hk hmerge
      obtain ⟨hextends', hmerged⟩ := ih (hextends.founded hf) hknown
      exact ⟨hextends.trans hextends', hmerged⟩

theorem ofMembers_builds (hf : t.Founded) (hk : ∀ member ∈ members, t.Known member) :
    Builds (ofMembers members) t fun type t' => t'.Known type := by
  rw [ofMembers.eq_def]
  split
  next =>
    exact Builds.pure (Nat.lt_trans (by decide) hf.standard)
  next only =>
    exact Builds.pure (hk only (by simp))
  next =>
    refine (intern_builds (by simp) rfl ?_).mono fun _ _ _ hfind => known_of_find? hfind
    intro member hmember
    exact hk member (mem_sort.1 hmember)

/-- The members of a union before they are merged. -/
def unmerged (t : TypeTable) (types : List TypeId) : List TypeId :=
  let flat := t.flatten types
  if 1 < flat.length then flat.filter (· != .noReturn) else flat

theorem unionOf_eq (types : List TypeId) (t : TypeTable) :
    unionOf types t =
      ofMembers (mergeMembers (t.unmerged types).length (t.unmerged types) t).1
        (mergeMembers (t.unmerged types).length (t.unmerged types) t).2 := rfl

theorem known_of_mem_unmerged (hf : t.Founded) (hk : ∀ type ∈ types, t.Known type) :
    ∀ member ∈ t.unmerged types, t.Known member := by
  intro member hmember
  rw [unmerged] at hmember
  split at hmember
  · exact known_of_mem_flatten hf hk member (List.mem_filter.1 hmember).1
  · exact known_of_mem_flatten hf hk member hmember

theorem unionOf_builds (hf : t.Founded) (hk : ∀ type ∈ types, t.Known type) :
    Builds (unionOf types) t fun type t' => t'.Known type := by
  obtain ⟨hextends, hmerged⟩ :=
    mergeMembers_builds (t.unmerged types).length hf (known_of_mem_unmerged hf hk)
  obtain ⟨hextends', hknown⟩ := ofMembers_builds (hextends.founded hf) hmerged
  exact ⟨hextends.trans hextends', hknown⟩

/-! ## Unions that have been built -/

section

variable (hg : t.Grows t')
include hg

theorem Grows.mergeClass?_eq (hk : t.Known type) : t'.mergeClass? type = t.mergeClass? type := by
  have hgrows := hg.shape type hk
  rw [mergeClass?, mergeClass?]
  generalize t.shape type = a at hgrows
  generalize t'.shape type = b at hgrows
  cases hgrows with
  | same | cls | library => rfl

theorem Grows.commonBase?_eq (hf : t.Founded) (ha : t.Known a) (hb : t.Known b) :
    t'.commonBase? a b = t.commonBase? a b := by
  rw [commonBase?, commonBase?, hg.mergeClass?_eq ha, hg.mergeClass?_eq hb]
  cases hca : t.mergeClass? a with
  | none => rfl
  | some ca =>
    cases hcb : t.mergeClass? b with
    | none => rfl
    | some cb =>
      have hsub : t'.isSubclass cb = t.isSubclass cb := by
        funext ancestor
        exact hg.isSubclass_eq hf (known_of_mergeClass? hf hb hcb) ancestor
      simp only [Option.bind_eq_bind, Option.bind_some,
        hg.ancestors_eq hf (known_of_mergeClass? hf ha hca), hsub]

theorem Grows.mergeWith?_eq (hf : t.Founded) (ha : t.Known a)
    (hk : ∀ member ∈ members, t.Known member) :
    t'.mergeWith? a members = t.mergeWith? a members := by
  induction members with
  | nil => rfl
  | cons b rest ih =>
    have hrest := ih (List.forall_mem_cons.1 hk).2
    rw [mergeWith?, mergeWith?, hg.commonBase?_eq hf ha (hk b List.mem_cons_self), hrest]

theorem Grows.firstMerge?_eq (hf : t.Founded) (hk : ∀ member ∈ members, t.Known member) :
    t'.firstMerge? members = t.firstMerge? members := by
  induction members with
  | nil => rfl
  | cons a rest ih =>
    have hrest : ∀ member ∈ rest, t.Known member :=
      (List.forall_mem_cons.1 hk).2
    rw [firstMerge?, firstMerge?, hg.mergeWith?_eq hf (hk a List.mem_cons_self) hrest, ih hrest]

theorem Grows.flatten_eq (hk : ∀ type ∈ types, t.Known type) :
    t'.flatten types = t.flatten types := by
  refine List.foldl_ext _ _ _ fun found type htype => ?_
  have hgrows := hg.shape type (hk type htype)
  generalize t.shape type = a at hgrows
  generalize t'.shape type = b at hgrows
  cases hgrows with
  | same | cls | library => rfl

theorem Grows.unmerged_eq (hk : ∀ type ∈ types, t.Known type) :
    t'.unmerged types = t.unmerged types := by
  rw [unmerged, unmerged, hg.flatten_eq hk]

end

theorem mergeMembers_again (steps : Nat) (hf : t.Founded) (hk : ∀ member ∈ members, t.Known member)
    (hg : (mergeMembers steps members t).2.Grows t') :
    mergeMembers steps members t' = ((mergeMembers steps members t).1, t') := by
  induction steps generalizing members t with
  | zero => rfl
  | succ steps ih =>
    have hstart := (mergeMembers_builds (steps + 1) hf hk).1.grows.trans hg
    rw [mergeMembers_succ, hstart.firstMerge?_eq hf hk]
    rw [mergeMembers_succ] at hg ⊢
    cases hmerge : t.firstMerge? members with
    | none => rfl
    | some merge =>
      obtain ⟨front, base, others⟩ := merge
      simp only [hmerge] at hg
      obtain ⟨hextends, hfind, hknown⟩ := known_of_mem_merged hf hk hmerge
      have hlater : (hierarchy base t).2.Grows t' :=
        (mergeMembers_builds steps (hextends.founded hf) hknown).1.grows.trans hg
      have hagain : hierarchy base t' = ((hierarchy base t).1, t') :=
        intern_of_find? (hlater.find?_eq_some (by simp) (by simp) hfind)
      simp only [hagain]
      exact ih (hextends.founded hf) hknown hg

theorem ofMembers_again (hk : ∀ member ∈ members, t.Known member)
    (hg : (ofMembers members t).2.Grows t') :
    ofMembers members t' = ((ofMembers members t).1, t') := by
  match members, hk, hg with
  | [], _, _ => rfl
  | [_], _, _ => rfl
  | first :: second :: rest, hk, hg =>
    have hbelow : (Shape.union (TypeId.sort (first :: second :: rest))).Below t.size :=
      fun member hmember => hk member (mem_sort.1 hmember)
    have hfind := (intern_builds (by simp) rfl hbelow).2
    exact intern_of_find? (hg.find?_eq_some (by simp) (by simp) hfind)

/-- A union that has been built is the same type in every later table. -/
theorem unionOf_again (hf : t.Founded) (hk : ∀ type ∈ types, t.Known type)
    (hg : (unionOf types t).2.Grows t') : unionOf types t' = ((unionOf types t).1, t') := by
  have hmerged := mergeMembers_builds (t.unmerged types).length hf (known_of_mem_unmerged hf hk)
  have hunion := ofMembers_builds (hmerged.1.founded hf) hmerged.2
  have hstart := (hmerged.1.trans hunion.1).grows.trans hg
  rw [unionOf_eq, hstart.unmerged_eq hk,
    mergeMembers_again _ hf (known_of_mem_unmerged hf hk) (hunion.1.grows.trans hg), unionOf_eq]
  exact ofMembers_again hmerged.2 hg

end Callsite.TypeTable
