import Callsite.Proofs.Types.Regular
import Mathlib.Data.List.Perm.Subperm

/-!
# The union of types is their join

Seen as a set of parts, a type absorbs another one part by part.  The union of types
absorbs all of them, and whatever lies apart and absorbs them absorbs their union.
This fixes the union among the types of a regular table, so it depends neither on
the order of its arguments nor on repetitions, and joins of joins are joins.
-/

namespace Callsite.TypeTable

variable {t t' : TypeTable} {type u v x a b : TypeId} {types members xs ys : List TypeId}

/-! ## Parts -/

/-- The members of a union; any other type is its only part, and `NoReturn` has none. -/
def parts (t : TypeTable) (type : TypeId) : List TypeId :=
  match t.shape type with
  | .union members => members
  | .noReturn => []
  | _ => [type]

theorem parts_of_union (h : t.shape type = .union members) : t.parts type = members := by
  rw [parts, h]

theorem parts_of_noReturn (h : t.shape type = .noReturn) : t.parts type = [] := by
  rw [parts, h]

theorem parts_of_plain (hunion : ∀ members, t.shape type ≠ .union members)
    (hnoReturn : t.shape type ≠ .noReturn) : t.parts type = [type] := by
  rw [parts]
  split
  next members hshape => exact absurd hshape (hunion members)
  next hshape => exact absurd hshape hnoReturn
  next => rfl

theorem parts_cases (t : TypeTable) (type : TypeId) :
    (∃ members, t.shape type = .union members ∧ t.parts type = members) ∨
      (t.shape type = .noReturn ∧ t.parts type = []) ∨
      ((∀ members, t.shape type ≠ .union members) ∧ t.shape type ≠ .noReturn ∧
        t.parts type = [type]) := by
  rw [parts]
  split
  next members hshape => exact Or.inl ⟨members, hshape, rfl⟩
  next hshape => exact Or.inr (Or.inl ⟨hshape, rfl⟩)
  next hunion hnoReturn => exact Or.inr (Or.inr ⟨hunion, hnoReturn, rfl⟩)

theorem Founded.known_of_mem_parts (hf : t.Founded) (hk : t.Known type) (h : x ∈ t.parts type) :
    t.Known x := by
  rcases parts_cases t type with ⟨members, hshape, hparts⟩ | ⟨-, hparts⟩ | ⟨-, -, hparts⟩
  · exact hf.known_of_mem_union hshape x (hparts ▸ h)
  · simp [hparts] at h
  · rw [hparts, List.mem_singleton] at h
    rwa [h]

/-- Types keep their parts. -/
theorem Grows.parts_eq (hg : t.Grows t') (hk : t.Known type) : t'.parts type = t.parts type := by
  have hgrows := hg.shape type hk
  rw [parts, parts]
  generalize t.shape type = old at hgrows
  generalize t'.shape type = new at hgrows
  cases hgrows with
  | same | cls | library => rfl

theorem Regular.mem_parts_iff (h : t.Regular) (hk : t.Known type) :
    x ∈ t.parts type ↔ x ∈ t.spread type ∧ x ≠ .noReturn := by
  rw [parts, spread]
  cases hshape : t.shape type with
  | union members =>
    refine ⟨fun hx => ⟨hx, (h.normal type members hshape).ne_noReturn x hx⟩, And.left⟩
  | noReturn =>
    simp only [List.not_mem_nil, List.mem_singleton, false_iff, not_and, not_not]
    rintro rfl
    exact h.eq_noReturn hk hshape
  | _ =>
    simp only [List.mem_singleton]
    refine ⟨?_, And.left⟩
    rintro rfl
    refine ⟨rfl, ?_⟩
    rintro rfl
    simp [h.founded.noReturn] at hshape

theorem Regular.parts_apart (h : t.Regular) (type : TypeId) : t.Apart (t.parts type) := by
  rcases parts_cases t type with ⟨members, hshape, hparts⟩ | ⟨-, hparts⟩ | ⟨-, -, hparts⟩
  · rw [hparts]
    exact (h.normal type members hshape).apart
  · simp [hparts, Apart]
  · rw [hparts]
    intro a ha b hb hne
    rw [List.mem_singleton] at ha hb
    exact absurd (ha.trans hb.symm) hne

theorem nodup_of_sorted (h : xs.Pairwise fun a b => a.index < b.index) : xs.Nodup :=
  h.imp fun hlt heq => hlt.ne (congrArg TypeId.index heq)

theorem eq_of_sorted (hx : xs.Pairwise fun a b => a.index < b.index)
    (hy : ys.Pairwise fun a b => a.index < b.index) (hmem : ∀ x, x ∈ xs ↔ x ∈ ys) : xs = ys := by
  have hperm : xs.Perm ys :=
    (List.perm_ext_iff_of_nodup (nodup_of_sorted hx) (nodup_of_sorted hy)).2 hmem
  refine hperm.eq_of_pairwise (fun a b _ _ hab hba => ?_) hx hy
  exact absurd hab (Nat.not_lt.2 (hba.le))

/-- The members of a union have it as their union. -/
theorem Regular.unionOf_members (h : t.Regular) (hshape : t.shape u = .union members) :
    TypeTable.unionOf members t = (u, t) := by
  have hnormal := h.normal u members hshape
  have hnodup := nodup_of_sorted hnormal.sorted
  have hspread : members.flatMap t.spread = members := by
    have hself : ∀ member ∈ members, t.spread member = [member] := by
      intro member hmember
      rw [spread]
      split
      next inner hinner => exact absurd hinner (hnormal.ne_union member hmember inner)
      next => rfl
    rw [List.flatMap_congr hself]
    simp
  have hflat : t.flatten members = members := by
    rw [flatten_eq, hspread, foldl_addNew_of_nodup (by simpa using hnodup)]
    rfl
  have hunmerged : t.unmerged members = members := by
    have hkept : members.filter (· != .noReturn) = members :=
      List.filter_eq_self.2 fun member hmember => by simpa using hnormal.ne_noReturn member hmember
    rw [unmerged, hflat, hkept, if_pos (Nat.lt_of_succ_le hnormal.two_le_length)]
  have hapart : t.firstMerge? members = none := by
    refine firstMerge?_eq_none_iff.2 (hnodup.imp_of_mem fun ha hb hne => ?_)
    exact hnormal.apart _ ha _ hb hne
  have hmerged : TypeTable.mergeMembers members.length members t = (members, t) := by
    obtain ⟨steps, hsteps⟩ := Nat.exists_eq_succ_of_ne_zero (n := members.length)
      ((Nat.lt_of_lt_of_le (by decide) hnormal.two_le_length).ne')
    rw [hsteps, mergeMembers_succ, hapart]
  have hsort : TypeId.sort members = members :=
    eq_of_sorted (sort_sorted hnodup) hnormal.sorted fun _ => mem_sort
  have hk : t.Known u := known_of_shape_ne (by simp [hshape])
  have hfind := h.find?_of_shape hk hshape rfl
  have hmany : ofMembers members = TypeTable.intern (.union (TypeId.sort members)) := by
    rw [ofMembers.eq_def]
    have hlength := hnormal.two_le_length
    split
    next => simp at hlength
    next => simp at hlength
    next => rfl
  rw [unionOf_eq, hunmerged, hmerged, hmany, hsort]
  exact intern_of_find? hfind

/-- In a regular table a type is fixed by its parts. -/
theorem Regular.eq_of_parts (h : t.Regular) (hu : t.Known u) (hv : t.Known v)
    (hparts : ∀ x, x ∈ t.parts u ↔ x ∈ t.parts v) : u = v := by
  -- A union has two different parts, so it shares its parts with no type of another kind.
  have htwo : ∀ {type members}, t.shape type = .union members → ∀ {only : List TypeId},
      only.length ≤ 1 → ¬ ∀ x, x ∈ members ↔ x ∈ only := by
    intro type members hshape only honly hsame
    have hnormal := h.normal type members hshape
    have hle := ((nodup_of_sorted hnormal.sorted).subperm fun x hx => (hsame x).1 hx).length_le
    have := hnormal.two_le_length
    omega
  rcases parts_cases t u with ⟨us, hus, hu'⟩ | ⟨hus, hu'⟩ | ⟨-, -, hu'⟩ <;>
    rcases parts_cases t v with ⟨vs, hvs, hv'⟩ | ⟨hvs, hv'⟩ | ⟨-, -, hv'⟩ <;>
    rw [hu', hv'] at hparts
  · have heq := eq_of_sorted (h.normal u us hus).sorted (h.normal v vs hvs).sorted hparts
    exact h.eq_of_shape_eq u v hu hv (by simp [hus, Shape.isInterned]) (by rw [hus, hvs, heq])
  · exact absurd hparts (htwo hus (by simp))
  · exact absurd hparts (htwo hus (by simp))
  · exact absurd (fun x => (hparts x).symm) (htwo hvs (by simp))
  · rw [h.eq_noReturn hu hus, h.eq_noReturn hv hvs]
  · simp at hparts
  · exact absurd (fun x => (hparts x).symm) (htwo hvs (by simp))
  · simp at hparts
  · simpa using hparts u

/-! ## Joins -/

/-- A type is the least, among those whose parts lie apart, that absorbs the given types. -/
structure IsJoin (t : TypeTable) (types : List TypeId) (u : TypeId) : Prop where
  known : t.Known u
  absorbs : ∀ type ∈ types, t.AbsorbsAll (t.parts u) (t.parts type)
  least :
    ∀ normal : List TypeId, (∀ member ∈ normal, t.Known member) → t.Apart normal →
      (∀ type ∈ types, t.AbsorbsAll normal (t.parts type)) → t.AbsorbsAll normal (t.parts u)

/-- Parts that lie apart and absorb each other are the same. -/
theorem mem_of_absorbsAll (h : t.Regular) (hc : t.OverClasses) (hx : ∀ x ∈ xs, t.Known x)
    (hapart : t.Apart xs) (hxy : t.AbsorbsAll xs ys) (hyx : t.AbsorbsAll ys xs) (hmem : a ∈ xs) :
    a ∈ ys := by
  have hf := h.founded
  obtain ⟨b, hb, hba⟩ := hyx a hmem
  obtain ⟨c, hcmem, hcb⟩ := hxy b hb
  have hka := hx a hmem
  have hca := hcb.trans hba hf hc hka
  -- The part that absorbs `a` again is `a` itself, since the parts lie apart.
  obtain rfl : a = c := by
    rcases hca with rfl | ⟨base, cls, hshape, hcls, habove, hroot⟩
    · rfl
    · by_contra hne
      exact commonBase?_ne_none hf hc h.rootsOnTop hka hcls (mergeClass?_of_hierarchy hshape)
        habove (self_mem_ancestors t base) hroot (hapart a hmem c hcmem hne)
  rcases hba with rfl | ⟨base, cls, hshape, hcls, habove, -⟩
  · exact hb
  rcases hcb with rfl | ⟨base', cls', hshape', hcls', habove', -⟩
  · exact hb
  -- Two hierarchies that absorb each other have the same base.
  obtain rfl := Option.some.inj (hcls.symm.trans (mergeClass?_of_hierarchy hshape'))
  obtain rfl := Option.some.inj (hcls'.symm.trans (mergeClass?_of_hierarchy hshape))
  obtain rfl : cls = cls' :=
    ancestors_antisymm hf (hf.known_of_hierarchy hshape) habove' habove
  have hkb : t.Known b := known_of_shape_ne (by simp [hshape])
  obtain rfl := h.eq_of_shape_eq a b hka hkb (by simp [hshape', Shape.isInterned])
    (by rw [hshape, hshape'])
  exact hb

namespace IsJoin

/-- Joins of the same types are the same. -/
theorem unique (hu : t.IsJoin xs u) (hv : t.IsJoin ys v) (h : t.Regular) (hc : t.OverClasses)
    (hmem : ∀ x, x ∈ xs ↔ x ∈ ys) : u = v := by
  have hknown : ∀ {type}, t.Known type → ∀ x ∈ t.parts type, t.Known x :=
    fun hk x hx => h.founded.known_of_mem_parts hk hx
  have huv : t.AbsorbsAll (t.parts v) (t.parts u) :=
    hu.least _ (hknown hv.known) (h.parts_apart v) fun type htype =>
      hv.absorbs type ((hmem type).1 htype)
  have hvu : t.AbsorbsAll (t.parts u) (t.parts v) :=
    hv.least _ (hknown hu.known) (h.parts_apart u) fun type htype =>
      hu.absorbs type ((hmem type).2 htype)
  refine h.eq_of_parts hu.known hv.known fun x => ⟨fun hx => ?_, fun hx => ?_⟩
  · exact mem_of_absorbsAll h hc (hknown hu.known) (h.parts_apart u) hvu huv hx
  · exact mem_of_absorbsAll h hc (hknown hv.known) (h.parts_apart v) huv hvu hx

theorem self (hk : t.Known u) : t.IsJoin [u] u where
  known := hk
  absorbs := by
    intro type htype
    rw [List.mem_singleton.1 htype]
    exact .refl t _
  least := fun normal _ _ habsorbs => habsorbs u (by simp)

/-- The join of joins is the join of everything they join. -/
theorem join {all : List TypeId} (hu : t.IsJoin types u) (h : t.Regular) (hc : t.OverClasses)
    (hk : ∀ x ∈ all, t.Known x)
    (hinto : ∀ type ∈ types, ∃ group, (∀ x ∈ group, x ∈ all) ∧ t.IsJoin group type)
    (hfrom : ∀ x ∈ all, ∃ type ∈ types, ∃ group, x ∈ group ∧ t.IsJoin group type) :
    t.IsJoin all u where
  known := hu.known
  absorbs := by
    intro x hx
    obtain ⟨type, htype, group, hgroup, hjoin⟩ := hfrom x hx
    have hparts : ∀ part ∈ t.parts x, t.Known part :=
      fun part hpart => h.founded.known_of_mem_parts (hk x hx) hpart
    exact (hu.absorbs type htype).trans (hjoin.absorbs x hgroup) h.founded hc hparts
  least := by
    intro normal hknown hapart habsorbs
    refine hu.least normal hknown hapart fun type htype => ?_
    obtain ⟨group, hgroup, hjoin⟩ := hinto type htype
    exact hjoin.least normal hknown hapart fun x hx => habsorbs x (hgroup x hx)

end IsJoin

/-! ## The union is the join -/

theorem Regular.mem_unmerged_iff (h : t.Regular) (hk : ∀ type ∈ types, t.Known type) :
    x ∈ t.unmerged types ∧ x ≠ .noReturn ↔ ∃ type ∈ types, x ∈ t.parts type := by
  have hflat : x ∈ t.flatten types ∧ x ≠ .noReturn ↔ ∃ type ∈ types, x ∈ t.parts type := by
    rw [mem_flatten]
    constructor
    · rintro ⟨⟨type, htype, hspread⟩, hne⟩
      exact ⟨type, htype, (h.mem_parts_iff (hk type htype)).2 ⟨hspread, hne⟩⟩
    · rintro ⟨type, htype, hpart⟩
      obtain ⟨hspread, hne⟩ := (h.mem_parts_iff (hk type htype)).1 hpart
      exact ⟨⟨type, htype, hspread⟩, hne⟩
  rw [← hflat, unmerged]
  split
  · simp only [List.mem_filter, bne_iff_ne, ne_eq]
    tauto
  · rfl

theorem unmerged_of_noReturn_mem (h : TypeId.noReturn ∈ t.unmerged types) :
    t.unmerged types = [.noReturn] := by
  rw [unmerged] at h ⊢
  split at h
  · simp at h
  next hshort =>
    rw [if_neg hshort]
    rcases hflat : t.flatten types with _ | ⟨only, _ | ⟨second, rest⟩⟩
    · simp [hflat] at h
    · rw [hflat, List.mem_singleton] at h; rw [h]
    · simp [hflat] at hshort

section

variable (h : t.Regular) (hk : ∀ type ∈ types, t.Known type)
  (hg : (TypeTable.unionOf types t).2.Grows t') (h' : t'.Regular)
include h hk hg h'

/-- The parts of a union are what the parts of its arguments merge into. -/
theorem Regular.merges_parts_unionOf : ∃ members result, members.Nodup ∧ t'.Merges members result ∧
      (∀ x, x ∈ members ↔ ∃ type ∈ types, x ∈ t.parts type) ∧
      ∀ x, x ∈ t'.parts (TypeTable.unionOf types t).1 ↔ x ∈ result := by
  have hknown := known_of_mem_unmerged h.founded hk
  by_cases hnoReturn : TypeId.noReturn ∈ t.unmerged types
  · -- Nothing but `NoReturn` is joined, and it stays alone.
    have hunmerged := unmerged_of_noReturn_mem hnoReturn
    have hrun : TypeTable.unionOf types t = (.noReturn, t) := by
      rw [unionOf_eq, hunmerged]
      rfl
    refine ⟨[], [], List.nodup_nil, .done rfl, fun x => ?_, fun x => ?_⟩
    · rw [← h.mem_unmerged_iff hk, hunmerged]
      simp
    · rw [hrun, parts_of_noReturn h'.founded.noReturn]
  · have hunion := TypeTable.unionOf_eq types t
    have hmerged := (mergeMembers_builds (t.unmerged types).length h.founded hknown).2
    have hfounded := (mergeMembers_builds (t.unmerged types).length h.founded hknown).1.founded
      h.founded
    have hlater := (ofMembers_builds hfounded hmerged).1.grows
    have hmerges := mergeMembers_merges h.founded hknown le_rfl (hlater.trans hg)
    refine ⟨t.unmerged types, _, unmerged_nodup t types, hmerges, fun x => ?_, fun x => ?_⟩
    · rw [← h.mem_unmerged_iff hk]
      exact ⟨fun hx => ⟨hx, fun heq => hnoReturn (heq ▸ hx)⟩, And.left⟩
    generalize TypeTable.mergeMembers (t.unmerged types).length (t.unmerged types) t = run at *
    match hresult : run.1 with
    | [] =>
      have hnone : (TypeTable.unionOf types t).1 = .noReturn := by rw [hunion, hresult]; rfl
      rw [hnone, parts_of_noReturn h'.founded.noReturn]
    | [only] =>
      have honly : (TypeTable.unionOf types t).1 = only := by rw [hunion, hresult]; rfl
      have hstart : t.Grows t' := (unionOf_builds h.founded hk).1.grows.trans hg
      rw [hresult] at hmerges
      rw [honly, parts_of_plain]
      · intro inner hshape
        rcases hmerges.mem_cases (x := only) (by simp) with hmem | ⟨base, hhier⟩
        · have hold := hstart.shape_of_isInterned (hknown only hmem)
            (by simp [hshape, Shape.isInterned])
          exact h.ne_union_of_mem_unmerged hmem inner (hold ▸ hshape)
        · simp [hshape] at hhier
      · intro hshape
        rcases hmerges.mem_cases (x := only) (by simp) with hmem | ⟨base, hhier⟩
        · exact hnoReturn (h'.eq_noReturn (hstart.known (hknown only hmem)) hshape ▸ hmem)
        · simp [hshape] at hhier
    | first :: second :: rest =>
      have hbelow : (Shape.union (TypeId.sort run.1)).Below run.2.size :=
        fun member hmember => hmerged member (mem_sort.1 hmember)
      have hfind := (intern_builds (by simp) rfl hbelow).2
      have hinterned :
          TypeTable.unionOf types t = TypeTable.intern (.union (TypeId.sort run.1)) run.2 := by
        rw [hunion, hresult]
        rfl
      rw [← hinterned] at hfind
      have hlaterFind := hg.find?_eq_some (by simp) (by simp) hfind
      rw [parts_of_union (shape_of_find? hlaterFind), mem_sort, hresult]

/-- The union of types is their join, in the table it leads to and in every later one. -/
theorem Regular.unionOf_isJoin (hc : t'.OverClasses) :
    t'.IsJoin types (TypeTable.unionOf types t).1 := by
  obtain ⟨members, result, hnodup, hmerges, hmembers, hparts⟩ :=
    h.merges_parts_unionOf hk hg h'
  have hbuilds := unionOf_builds h.founded hk
  have hstart := hbuilds.1.grows.trans hg
  have hknown : ∀ member ∈ members, t'.Known member := by
    intro member hmember
    obtain ⟨type, htype, hpart⟩ := (hmembers member).1 hmember
    exact hstart.known (h.founded.known_of_mem_parts (hk type htype) hpart)
  refine ⟨hg.known hbuilds.2, fun type htype part hpart => ?_, ?_⟩
  · rw [hstart.parts_eq (hk type htype)] at hpart
    obtain ⟨whole, hwhole, habsorbs⟩ :=
      hmerges.absorbsAll h'.founded hc hknown part ((hmembers part).2 ⟨type, htype, hpart⟩)
    exact ⟨whole, (hparts whole).2 hwhole, habsorbs⟩
  · intro normal hknownNormal hapart habsorbs part hpart
    refine hmerges.least h'.founded hc h'.rootsOnTop hknown (.of_nodup hnodup) hapart hknownNormal
      (fun member hmember => ?_) part ((hparts part).1 hpart)
    obtain ⟨type, htype, hmemberPart⟩ := (hmembers member).1 hmember
    exact habsorbs type htype member (by rwa [hstart.parts_eq (hk type htype)])

end

/-- Joining types one after the other: a permutation or repetition of the arguments gives the
same type, a union of unions is the union of all arguments, and a type is the union of itself. -/
theorem unionOf_semilattice (hr : t.Reached) (hc : t.OverClasses) :
    (∀ xs ys : List TypeId, (∀ x ∈ xs, t.Known x) → (∀ x, x ∈ ys ↔ x ∈ xs) →
      (unionOf ys (unionOf xs t).2).1 = (unionOf xs t).1) ∧
    (∀ xs ys : List TypeId, (∀ x ∈ xs ++ ys, t.Known x) →
      let first := unionOf xs t
      let second := unionOf ys first.2
      let joined := unionOf [first.1, second.1] second.2
      (unionOf (xs ++ ys) joined.2).1 = joined.1) ∧
    ∀ u, t.Known u → (unionOf [u] t).1 = u ∧ (unionOf [u, u] t).1 = u := by
  have h := hr.regular
  refine ⟨fun xs ys hk hmem => ?_, fun xs ys hk => ?_, fun u hu => ?_⟩
  · have hwidens := unionOf_widens xs t
    have hregular := h.unionOf hk
    have hk' : ∀ y ∈ ys, (unionOf xs t).2.Known y :=
      fun y hy => hwidens.known (hk y ((hmem y).1 hy))
    have hlater := unionOf_widens ys (unionOf xs t).2
    have hregular' := hregular.unionOf hk'
    have hc' := hlater.overClasses (hwidens.overClasses hc)
    have hjoin := hregular.unionOf_isJoin hk' (.refl _) hregular' hc'
    exact hjoin.unique (h.unionOf_isJoin hk hlater.grows hregular' hc') hregular' hc' hmem
  · intro first second joined
    have hkx : ∀ x ∈ xs, t.Known x := fun x hx => hk x (List.mem_append_left ys hx)
    have hky : ∀ y ∈ ys, t.Known y := fun y hy => hk y (List.mem_append_right xs hy)
    have hw1 : t.Widens first.2 := unionOf_widens xs t
    have hw2 : first.2.Widens second.2 := unionOf_widens ys first.2
    have hw3 : second.2.Widens joined.2 := unionOf_widens _ second.2
    have hw4 : joined.2.Widens (unionOf (xs ++ ys) joined.2).2 := unionOf_widens _ joined.2
    have hky1 : ∀ y ∈ ys, first.2.Known y := fun y hy => hw1.known (hky y hy)
    have h1 : first.2.Regular := h.unionOf hkx
    have h2 : second.2.Regular := h1.unionOf hky1
    have hfirst : first.2.Known first.1 := (unionOf_builds h.founded hkx).2
    have hsecond : second.2.Known second.1 := (unionOf_builds h1.founded hky1).2
    have hpair : ∀ x ∈ [first.1, second.1], second.2.Known x := by
      intro x hx
      rcases List.mem_pair.1 hx with rfl | rfl
      · exact hw2.known hfirst
      · exact hsecond
    have h3 : joined.2.Regular := h2.unionOf hpair
    have hkAll : ∀ x ∈ xs ++ ys, joined.2.Known x :=
      fun x hx => hw3.known (hw2.known (hw1.known (hk x hx)))
    have h4 := h3.unionOf hkAll
    have hc4 := hw4.overClasses (hw3.overClasses (hw2.overClasses (hw1.overClasses hc)))
    -- In the last table every union that was built is the join of its arguments.
    have hjoinX := h.unionOf_isJoin hkx (hw2.trans (hw3.trans hw4)).grows h4 hc4
    have hjoinY := h1.unionOf_isJoin hky1 (hw3.trans hw4).grows h4 hc4
    have hjoinPair := h2.unionOf_isJoin hpair hw4.grows h4 hc4
    have hjoinAll := h3.unionOf_isJoin hkAll (.refl _) h4 hc4
    refine hjoinAll.unique (hjoinPair.join h4 hc4 (fun x hx => hw4.known (hkAll x hx)) ?_ ?_)
      h4 hc4 fun _ => Iff.rfl
    · intro type htype
      rcases List.mem_pair.1 htype with rfl | rfl
      · exact ⟨xs, fun x hx => List.mem_append_left ys hx, hjoinX⟩
      · exact ⟨ys, fun y hy => List.mem_append_right xs hy, hjoinY⟩
    · intro x hx
      rcases List.mem_append.1 hx with hx | hx
      · exact ⟨first.1, by simp, xs, hx, hjoinX⟩
      · exact ⟨second.1, by simp, ys, hx, hjoinY⟩
  · have hself : ∀ us : List TypeId, (∀ x, x ∈ us ↔ x ∈ [u]) → (unionOf us t).1 = u := by
      intro us hmem
      have hk : ∀ x ∈ us, t.Known x := by
        intro x hx
        rw [List.mem_singleton.1 ((hmem x).1 hx)]
        exact hu
      have hwidens := unionOf_widens us t
      have hregular := h.unionOf hk
      have hc' := hwidens.overClasses hc
      have hjoin := h.unionOf_isJoin hk (.refl _) hregular hc'
      exact hjoin.unique (.self (hwidens.known hu)) hregular hc' hmem
    exact ⟨hself [u] fun _ => Iff.rfl, hself [u, u] (by simp)⟩

/-- `Bar | Baz` and `Baz | Bar | Baz` are both `Foo+`. -/
theorem unionOf_semilattice_family :
    family.Reached ∧ family.OverClasses ∧
      (unionOf [⟨15⟩, ⟨16⟩] family).2.shape (unionOf [⟨15⟩, ⟨16⟩] family).1 = .hierarchy ⟨14⟩ ∧
      (unionOf [⟨16⟩, ⟨15⟩, ⟨16⟩] (unionOf [⟨15⟩, ⟨16⟩] family).2).1 =
        (unionOf [⟨15⟩, ⟨16⟩] family).1 := by
  have hc : family.OverClasses := by decide +kernel
  refine ⟨family_reached, hc, ?_, ?_⟩
  · decide +kernel
  · exact (unionOf_semilattice family_reached hc).1 [⟨15⟩, ⟨16⟩] [⟨16⟩, ⟨15⟩, ⟨16⟩]
      (by decide +kernel) (by simp [or_comm])

end Callsite.TypeTable
