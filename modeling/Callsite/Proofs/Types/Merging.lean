import Callsite.Proofs.Types.Chains

/-!
# Merging the members of a union

One type absorbs another when it is the hierarchy of an ancestor, below the roots, of
the other's class.  Merging pairs of members until none is left gives members that
lie apart and absorb those at the start.  In a forest of classes they are the least
such: whatever lies apart and absorbs the members at the start absorbs the result
too.  So the result does not depend on the order of the members or of the merges.
-/

namespace Callsite.TypeTable

variable {t t' : TypeTable} {type base a b c x merged whole part : TypeId}
variable {members front others result normal : List TypeId}

/-! ## Single merges -/

theorem mergeWith?_eq_none_iff :
    t.mergeWith? a members = none ↔ ∀ b ∈ members, t.commonBase? a b = none := by
  induction members with
  | nil => simp [mergeWith?]
  | cons b rest ih =>
    rw [mergeWith?]
    cases hbase : t.commonBase? a b with
    | some base => simp [hbase]
    | none => simp [hbase, ih]

theorem firstMerge?_eq_none_iff :
    t.firstMerge? members = none ↔ members.Pairwise fun a b => t.commonBase? a b = none := by
  induction members with
  | nil => simp [firstMerge?]
  | cons a rest ih =>
    rw [firstMerge?, List.pairwise_cons, ← mergeWith?_eq_none_iff, ← ih]
    cases hmerge : t.mergeWith? a rest with
    | some | none => simp

theorem mem_dropRepeats {l : List TypeId} : x ∈ dropRepeats l ↔ x ∈ l := by
  refine ⟨fun h => (dropRepeats_sublist l).subset h, fun h => ?_⟩
  induction l using dropRepeats.induct with
  | case1 y rest ih =>
    rw [dropRepeats, if_pos rfl]
    exact ih (by simpa using h)
  | case2 y z rest hne ih =>
    rw [dropRepeats, if_neg hne]
    rcases List.mem_cons.1 h with rfl | h
    · exact List.mem_cons_self
    · exact List.mem_cons_of_mem _ (ih h)
  | case3 short hshort =>
    rw [dropRepeats.eq_2 short hshort]
    exact h

/-! ## Runs of merges -/

/-- Merging pairs of members in a table that has all the hierarchies this needs. -/
inductive Merges (t : TypeTable) : List TypeId → List TypeId → Prop
  | done {members : List TypeId} (h : t.firstMerge? members = none) : Merges t members members
  | step {members front others result : List TypeId} {base merged : TypeId}
      (h : t.firstMerge? members = some (front, base, others))
      (hmerged : t.find? (.hierarchy base) = some merged)
      (rest : Merges t (dropRepeats (front ++ merged :: others)) result) :
      Merges t members result

theorem length_dropRepeats_lt
    (h : t.firstMerge? members = some (front, base, others)) (merged : TypeId) :
    (dropRepeats (front ++ merged :: others)).length < members.length := by
  obtain ⟨a, before, b, after, rfl, rfl, -⟩ := firstMerge?_split h
  have hle := (dropRepeats_sublist (front ++ merged :: (before ++ after))).length_le
  simp only [List.length_append, List.length_cons] at hle ⊢
  omega

/-- After a merge there are the merged hierarchy and members that were there before. -/
theorem mem_afterMerge (h : t.firstMerge? members = some (front, base, others))
    (hx : x ∈ dropRepeats (front ++ merged :: others)) : x = merged ∨ x ∈ members := by
  obtain ⟨a, before, b, after, rfl, rfl, -⟩ := firstMerge?_split h
  simp only [mem_dropRepeats, List.mem_append, List.mem_cons] at hx ⊢
  tauto

/-- With as many steps as members the loop runs until no two members merge. -/
theorem mergeMembers_merges {steps : Nat} (hf : t.Founded) (hk : ∀ member ∈ members, t.Known member)
    (hsteps : members.length ≤ steps) (hg : (mergeMembers steps members t).2.Grows t') :
    t'.Merges members (mergeMembers steps members t).1 := by
  induction steps generalizing members t with
  | zero =>
    obtain rfl : members = [] := List.length_eq_zero_iff.1 (Nat.le_zero.1 hsteps)
    exact .done rfl
  | succ steps ih =>
    have hstart := (mergeMembers_builds (steps + 1) hf hk).1.grows.trans hg
    rw [mergeMembers_succ] at hg ⊢
    cases hmerge : t.firstMerge? members with
    | none =>
      refine .done ?_
      rw [hstart.firstMerge?_eq hf hk, hmerge]
    | some merge =>
      obtain ⟨front, base, others⟩ := merge
      simp only [hmerge] at hg
      obtain ⟨hextends, hfind, hknown⟩ := known_of_mem_merged hf hk hmerge
      have hlater : (hierarchy base t).2.Grows t' :=
        (mergeMembers_builds steps (hextends.founded hf) hknown).1.grows.trans hg
      have hfewer := length_dropRepeats_lt hmerge (hierarchy base t).1
      refine .step (by rw [hstart.firstMerge?_eq hf hk, hmerge])
        (hlater.find?_eq_some (by simp) (by simp) hfind) ?_
      exact ih (hextends.founded hf) hknown (by omega) hg

theorem mergeClass?_of_hierarchy (h : t.shape type = .hierarchy base) :
    t.mergeClass? type = some base := by
  rw [mergeClass?, h]

/-- The hierarchy of a class below the roots merges with itself. -/
theorem commonBase?_self_of_hierarchy (hf : t.Founded) (hshape : t.shape type = .hierarchy base)
    (hroot : isRoot base = false) : t.commonBase? type type = some base := by
  have hk : t.Known type := known_of_shape_ne (by simp [hshape])
  have hclass := mergeClass?_of_hierarchy hshape
  have hbase : t.Known base := hf.known_of_hierarchy hshape
  refine (commonBase?_eq_some_iff_lowest hf hk).2 ⟨base, base, hclass, hclass, ?_, hroot⟩
  exact ⟨self_mem_ancestors t base, self_mem_ancestors t base,
    fun x hx _ => le_of_mem_ancestors hf hbase hx⟩

/-- Only hierarchies of classes below the roots stand twice among the members. -/
def RepeatsMerge (t : TypeTable) (members : List TypeId) : Prop :=
  members.Pairwise fun a b => a = b → ∃ base, t.shape a = .hierarchy base ∧ isRoot base = false

theorem RepeatsMerge.of_nodup (h : members.Nodup) : t.RepeatsMerge members :=
  h.imp fun hne heq => absurd heq hne

theorem RepeatsMerge.step (hrepeats : t.RepeatsMerge members)
    (h : t.firstMerge? members = some (front, base, others))
    (hmerged : t.find? (.hierarchy base) = some merged) :
    t.RepeatsMerge (dropRepeats (front ++ merged :: others)) := by
  obtain ⟨a, before, b, after, rfl, rfl, hbase⟩ := firstMerge?_split h
  obtain ⟨-, -, -, -, -, hroot⟩ := commonBase?_eq_some_iff.1 hbase
  have hshape := shape_of_find? hmerged
  have hkept : (front ++ (before ++ after)).Sublist (front ++ a :: (before ++ b :: after)) := by
    refine (List.Sublist.refl front).append (List.Sublist.cons a ?_)
    exact (List.Sublist.refl before).append (List.sublist_cons_self b after)
  obtain ⟨hfront, hothers, hcross⟩ := List.pairwise_append.1 (hrepeats.sublist hkept)
  refine List.Pairwise.sublist (dropRepeats_sublist _) ?_
  refine List.pairwise_append.2 ⟨hfront, List.pairwise_cons.2 ⟨?_, hothers⟩, ?_⟩
  · exact fun _ _ _ => ⟨base, hshape, hroot⟩
  · exact fun y hy => List.forall_mem_cons.2 ⟨fun heq => ⟨base, heq ▸ hshape, hroot⟩, hcross y hy⟩

/-- The pair that merges first, as members of the list. -/
theorem RepeatsMerge.of_pair {before after : List TypeId}
    (h : t.RepeatsMerge (front ++ a :: (before ++ b :: after))) (heq : a = b) :
    ∃ base, t.shape a = .hierarchy base ∧ isRoot base = false := by
  have htail := (List.pairwise_append.1 h).2.1
  exact (List.pairwise_cons.1 htail).1 b (by simp) heq

namespace Merges

variable (h : t.Merges members result)
include h

theorem pairwise : result.Pairwise fun a b => t.commonBase? a b = none := by
  induction h with
  | done h => exact firstMerge?_eq_none_iff.1 h
  | step _ _ _ ih => exact ih

/-- New members are hierarchies. -/
theorem mem_cases (hx : x ∈ result) : x ∈ members ∨ ∃ base, t.shape x = .hierarchy base := by
  induction h with
  | done => exact Or.inl hx
  | step h hmerged _ ih =>
    rcases ih hx with hmem | hhier
    · rcases mem_afterMerge h hmem with rfl | hmem
      · exact Or.inr ⟨_, shape_of_find? hmerged⟩
      · exact Or.inl hmem
    · exact Or.inr hhier

theorem known (hk : ∀ member ∈ members, t.Known member) : ∀ member ∈ result, t.Known member := by
  intro member hmember
  rcases h.mem_cases hmember with hmem | ⟨base, hshape⟩
  · exact hk member hmem
  · exact known_of_shape_ne (by simp [hshape])

/-- What stands twice merges with itself, so it does not stay twice. -/
theorem nodup (hf : t.Founded) (hrepeats : t.RepeatsMerge members) : result.Nodup := by
  induction h with
  | done h =>
    have hapart := firstMerge?_eq_none_iff.1 h
    refine (List.pairwise_and_iff.2 ⟨hrepeats, hapart⟩).imp ?_
    rintro a b ⟨hrepeat, hnone⟩ rfl
    obtain ⟨base, hshape, hroot⟩ := hrepeat rfl
    simp [commonBase?_self_of_hierarchy hf hshape hroot] at hnone
  | step h hmerged _ ih => exact ih (hrepeats.step h hmerged)

end Merges

/-! ## Absorption -/

/-- A type absorbs another that is the same or whose class stands below the base of the
hierarchy, unless the base is a root. -/
def Absorbs (t : TypeTable) (whole part : TypeId) : Prop :=
  part = whole ∨
    ∃ base cls, t.shape whole = .hierarchy base ∧ t.mergeClass? part = some cls ∧
      base ∈ t.ancestors cls ∧ isRoot base = false

/-- Every one of the parts is absorbed. -/
def AbsorbsAll (t : TypeTable) (wholes parts : List TypeId) : Prop :=
  ∀ part ∈ parts, ∃ whole ∈ wholes, t.Absorbs whole part

/-- No two of the members merge. -/
def Apart (t : TypeTable) (members : List TypeId) : Prop :=
  ∀ a ∈ members, ∀ b ∈ members, a ≠ b → t.commonBase? a b = none

theorem Absorbs.refl (t : TypeTable) (type : TypeId) : t.Absorbs type type :=
  Or.inl rfl

theorem Absorbs.trans (h : t.Absorbs a b) (h' : t.Absorbs b c) (hf : t.Founded) (hc : t.OverClasses)
    (hk : t.Known c) : t.Absorbs a c := by
  rcases h with rfl | ⟨base, cls, hshape, hcls, hmem, hroot⟩
  · exact h'
  rcases h' with rfl | ⟨base', cls', hshape', hcls', hmem', -⟩
  · exact Or.inr ⟨base, cls, hshape, hcls, hmem, hroot⟩
  · obtain rfl : base' = cls := by
      rw [mergeClass?_of_hierarchy hshape'] at hcls
      exact Option.some.inj hcls
    have hknown := known_of_mergeClass? hf hk hcls'
    exact Or.inr ⟨base, cls', hshape, hcls', ancestors_trans hf hc hknown hmem' hmem, hroot⟩

theorem AbsorbsAll.refl (t : TypeTable) (members : List TypeId) : t.AbsorbsAll members members :=
  fun part hpart => ⟨part, hpart, .refl t part⟩

theorem AbsorbsAll.trans {wholes middles parts : List TypeId} (h : t.AbsorbsAll wholes middles)
    (h' : t.AbsorbsAll middles parts) (hf : t.Founded) (hc : t.OverClasses)
    (hk : ∀ part ∈ parts, t.Known part) : t.AbsorbsAll wholes parts := by
  intro part hpart
  obtain ⟨middle, hmiddle, habsorbs'⟩ := h' part hpart
  obtain ⟨whole, hwhole, habsorbs⟩ := h middle hmiddle
  exact ⟨whole, hwhole, habsorbs.trans habsorbs' hf hc (hk part hpart)⟩

/-- The hierarchy of a common base absorbs the two members. -/
theorem absorbs_of_commonBase? (hf : t.Founded) (ha : t.Known a)
    (hbase : t.commonBase? a b = some base) (hmerged : t.shape merged = .hierarchy base) :
    t.Absorbs merged a ∧ t.Absorbs merged b := by
  obtain ⟨ca, cb, hca, hcb, hlowest, hroot⟩ := (commonBase?_eq_some_iff_lowest hf ha).1 hbase
  exact ⟨Or.inr ⟨base, ca, hmerged, hca, hlowest.left, hroot⟩,
    Or.inr ⟨base, cb, hmerged, hcb, hlowest.right, hroot⟩⟩

/-- A table in which what stands above a root is a root. -/
def RootsOnTop (t : TypeTable) : Prop :=
  ∀ type above, isRoot type = true → t.above? type = some above → isRoot above = true

/-- The ancestors of roots are roots. -/
theorem isRoot_of_mem_ancestors (hf : t.Founded) (hc : t.OverClasses) (hroots : t.RootsOnTop)
    (hk : t.Known type) (h : x ∈ t.ancestors type) (hroot : isRoot type = true) :
    isRoot x = true := by
  induction hk using known_induction hf with
  | step type hk ih =>
    rcases (mem_ancestors_iff hf hc hk).1 h with rfl | ⟨above, habove, h⟩
    · exact hroot
    · exact ih above habove h (hroots type above hroot habove)

/-- Members with a shared ancestor below the roots merge. -/
theorem commonBase?_ne_none {ca cb : TypeId} (hf : t.Founded) (hc : t.OverClasses)
    (hroots : t.RootsOnTop) (ha : t.Known a) (hca : t.mergeClass? a = some ca)
    (hcb : t.mergeClass? b = some cb) (hxa : x ∈ t.ancestors ca) (hxb : x ∈ t.ancestors cb)
    (hroot : isRoot x = false) : t.commonBase? a b ≠ none := by
  have hknown := known_of_mergeClass? hf ha hca
  cases hfind : (t.ancestors ca).find? (t.isSubclass cb) with
  | none =>
    have := List.find?_eq_none.1 hfind x hxa
    simp [isSubclass_iff, hxb] at this
  | some base =>
    have hlowest := (find?_isSubclass_iff hf hknown).1 hfind
    have hbaseRoot : isRoot base = false := by
      by_contra hbase
      have hmem := hlowest.mem_ancestors hf hc hknown hxa hxb
      have := isRoot_of_mem_ancestors hf hc hroots (known_of_mem_ancestors hf hknown hlowest.left)
        hmem (by simpa using hbase)
      simp [this] at hroot
    have hsome := (commonBase?_eq_some_iff_lowest hf ha).2 ⟨ca, cb, hca, hcb, hlowest, hbaseRoot⟩
    simp [hsome]

/-! ## The result is the least that lies apart -/

/-- What lies apart and absorbs two members absorbs the hierarchy they merge into. -/
theorem exists_absorbs_merged (hf : t.Founded) (hc : t.OverClasses) (hroots : t.RootsOnTop)
    (hapart : t.Apart normal) (hknown : ∀ member ∈ normal, t.Known member) (ha : t.Known a)
    (hb : t.Known b) (hrepeat : a = b → ∃ base, t.shape a = .hierarchy base ∧ isRoot base = false)
    (hbase : t.commonBase? a b = some base) (hmerged : t.shape merged = .hierarchy base)
    (hwa : ∃ whole ∈ normal, t.Absorbs whole a) (hwb : ∃ whole ∈ normal, t.Absorbs whole b) :
    ∃ whole ∈ normal, t.Absorbs whole merged := by
  obtain ⟨ca, cb, hca, hcb, hlowest, hroot⟩ := (commonBase?_eq_some_iff_lowest hf ha).1 hbase
  have hkca := known_of_mergeClass? hf ha hca
  have hkcb := known_of_mergeClass? hf hb hcb
  have hclass := mergeClass?_of_hierarchy hmerged
  -- A whole either stands above the base, and is the one looked for, or has the base above it.
  have hcases : ∀ {whole part cls}, t.Known cls → t.mergeClass? part = some cls →
      base ∈ t.ancestors cls → t.Absorbs whole part →
      t.Absorbs whole merged ∨
        ∃ wholeCls, t.mergeClass? whole = some wholeCls ∧ base ∈ t.ancestors wholeCls ∧
          wholeCls ∈ t.ancestors cls := by
    intro whole part cls hkcls hcls hmem habsorbs
    rcases habsorbs with rfl | ⟨wholeBase, cls', hshape, hcls', hmem', hroot'⟩
    · exact Or.inr ⟨cls, hcls, hmem, self_mem_ancestors t cls⟩
    · obtain rfl : cls = cls' := Option.some.inj (hcls.symm.trans hcls')
      rcases ancestors_total hf hc hkcls hmem hmem' with hle | hle
      · exact Or.inr ⟨wholeBase, mergeClass?_of_hierarchy hshape, hle, hmem'⟩
      · exact Or.inl (Or.inr ⟨wholeBase, base, hshape, hclass, hle, hroot'⟩)
  obtain ⟨wa, hwa, habsorbsA⟩ := hwa
  obtain ⟨wb, hwb, habsorbsB⟩ := hwb
  rcases hcases hkca hca hlowest.left habsorbsA with hdone | ⟨wca, hwca, hmemA, haboveA⟩
  · exact ⟨wa, hwa, hdone⟩
  rcases hcases hkcb hcb hlowest.right habsorbsB with hdone | ⟨wcb, hwcb, hmemB, haboveB⟩
  · exact ⟨wb, hwb, hdone⟩
  -- Both wholes stand below the base, so they would merge if they were not the same.
  have hsame : wa = wb := by
    by_contra hne
    exact commonBase?_ne_none hf hc hroots (hknown wa hwa) hwca hwcb hmemA hmemB hroot
      (hapart wa hwa wb hwb hne)
  subst hsame
  obtain rfl : wca = wcb := Option.some.inj (hwca.symm.trans hwcb)
  -- Then its class is shared by both, so it is the base itself.
  have hbaseAbove := hlowest.mem_ancestors hf hc hkca haboveA haboveB
  obtain rfl : base = wca :=
    ancestors_antisymm hf (known_of_mem_ancestors hf hkca haboveA) hmemA hbaseAbove
  -- A whole that absorbs two members is a hierarchy, also when it is one of them.
  have hwhole : ∃ wholeBase, t.shape wa = .hierarchy wholeBase := by
    rcases habsorbsA with rfl | ⟨wholeBase, -, hshape, -⟩
    · rcases habsorbsB with rfl | ⟨wholeBase, -, hshape, -⟩
      · obtain ⟨wholeBase, hshape, -⟩ := hrepeat rfl
        exact ⟨wholeBase, hshape⟩
      · exact ⟨wholeBase, hshape⟩
    · exact ⟨wholeBase, hshape⟩
  obtain ⟨wholeBase, hshape⟩ := hwhole
  obtain rfl := Option.some.inj (hwca.symm.trans (mergeClass?_of_hierarchy hshape))
  exact ⟨wa, hwa, Or.inr ⟨base, base, hshape, hclass, self_mem_ancestors t base, hroot⟩⟩

namespace Merges

variable (h : t.Merges members result) (hf : t.Founded) (hc : t.OverClasses)
include h hf hc

theorem absorbsAll (hk : ∀ member ∈ members, t.Known member) : t.AbsorbsAll result members := by
  induction h with
  | done => exact .refl t _
  | @step members front others result base merged h hmerged _ ih =>
    have hk' : ∀ member ∈ dropRepeats (front ++ merged :: others), t.Known member := by
      intro member hmember
      rcases mem_afterMerge h hmember with rfl | hmember
      · exact known_of_find? hmerged
      · exact hk member hmember
    obtain ⟨a, before, b, after, rfl, rfl, hbase⟩ := firstMerge?_split h
    have hstep : t.AbsorbsAll (dropRepeats (front ++ merged :: (before ++ after)))
        (front ++ a :: (before ++ b :: after)) := by
      obtain ⟨habsorbsA, habsorbsB⟩ :=
        absorbs_of_commonBase? hf (hk a (by simp)) hbase (shape_of_find? hmerged)
      intro part hpart
      simp only [mem_dropRepeats, List.mem_append, List.mem_cons] at hpart ⊢
      rcases hpart with hpart | rfl | hpart | rfl | hpart
      · exact ⟨part, Or.inl hpart, .refl t part⟩
      · exact ⟨merged, by simp, habsorbsA⟩
      · exact ⟨part, by simp [hpart], .refl t part⟩
      · exact ⟨merged, by simp, habsorbsB⟩
      · exact ⟨part, by simp [hpart], .refl t part⟩
    exact (ih hk').trans hstep hf hc hk

/-- What lies apart and absorbs the members absorbs what they merge into. -/
theorem least (hroots : t.RootsOnTop) (hk : ∀ member ∈ members, t.Known member)
    (hrepeats : t.RepeatsMerge members) (hapart : t.Apart normal)
    (hknown : ∀ member ∈ normal, t.Known member) (habsorbs : t.AbsorbsAll normal members) :
    t.AbsorbsAll normal result := by
  induction h with
  | done => exact habsorbs
  | @step members front others result base merged h hmerged _ ih =>
    have hrepeats' := hrepeats.step h hmerged
    have hcases : ∀ x ∈ dropRepeats (front ++ merged :: others), x = merged ∨ x ∈ members :=
      fun x hx => mem_afterMerge h hx
    obtain ⟨a, before, b, after, rfl, rfl, hbase⟩ := firstMerge?_split h
    have hwhole := exists_absorbs_merged hf hc hroots hapart hknown (hk a (by simp))
      (hk b (by simp)) hrepeats.of_pair hbase (shape_of_find? hmerged)
      (habsorbs a (by simp)) (habsorbs b (by simp))
    refine ih (fun member hmember => ?_) hrepeats' fun part hpart => ?_
    · rcases hcases member hmember with rfl | hmember
      · exact known_of_find? hmerged
      · exact hk member hmember
    · rcases hcases part hpart with rfl | hpart
      · exact hwhole
      · exact habsorbs part hpart

end Merges

end Callsite.TypeTable
