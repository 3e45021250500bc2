import Callsite.Proofs.Engine.Matches

/-!
# Resolving calls by moves

What a call is resolved to belongs to the owners in the type of its receiver.  Below a base, it
reaches every concrete class that was there when the call began to watch the base; whatever comes
later leaves a gap, or makes the call be resolved again.
-/

namespace Callsite

open TypeTable

variable {found : MatchSet} {typed : Nat} {selfType : Option TypeId}

variable {s s' : Session} {A : Agenda} {O : Set CallId} {engine : Engine} {call : CallId}
  {owner base : TypeId} {ids : List InstanceId}

/-! ## Targets found so far -/

theorem Session.Before.reaches (hb : s.Before s') (hids : ∀ id ∈ ids, s.HasInstance id)
    (h : s.Reaches ids owner) : s'.Reaches ids owner := by
  obtain ⟨id, hid, howner⟩ := h
  exact ⟨id, hid, (hb.inst id (hids id hid)).owner.trans howner⟩

/-- The instances found for a call on a concrete owner: some, unless the call has been
deferred. -/
structure Session.Finds (s : Session) (A : Agenda) (call : CallId) (owner : TypeId)
    (ids : List InstanceId) : Prop where
  fits : ∀ id ∈ ids, s.Fits A call id
  reaches : (s.call call).receiver ≠ none → owner ≠ .noReturn → s.Reaches ids owner
  deferred : ids = [] → (s.call call).targets = none → (s.call call).deferred = true

theorem Session.Finds.later (h : s.Finds A call owner ids) (hs : s.Tended A)
    (hcall : s.HasCall call) (he : Episode ∅ (s, A) (s', A)) : s'.Finds A call owner ids where
  fits := fun id hid => (h.fits id hid).later hs hcall he
  reaches := by
    intro hreceiver hne
    rw [(he.before.call call hcall).receiver] at hreceiver
    exact he.before.reaches (fun id hid => (h.fits id hid).has) (h.reaches hreceiver hne)
  deferred := by
    intro hnil hnone
    have hstays := he.keeps call hcall (Set.notMem_empty call) hnone
    exact hstays.deferred (h.deferred hnil hstays.targets)

/-- As long as the resolution of a call is not overtaken by another one, the instances found span
a base. -/
def Session.Spanning (s : Session) (A : Agenda) (call : CallId) (ids : List InstanceId)
    (base : TypeId) : Prop :=
  (s.call call).targets = none → (s.call call).signature ≠ none → s.Spans A.gaps call ids base

theorem Session.Spanning.later (h : s.Spanning A call ids base)
    (hids : ∀ id ∈ ids, s.HasInstance id) (hcall : s.HasCall call) (he : Episode ∅ (s, A) (s', A)) :
    s'.Spanning A call ids base := by
  intro hnone hsigned
  have hstays := he.keeps call hcall (Set.notMem_empty call) hnone
  have hsignature := hstays.signature hsigned
  have hspans := h hstays.targets fun heq => hsigned (hsignature.trans heq)
  refine ⟨hstays.watched hsigned base hspans.watched, fun cls hcls => ?_⟩
  rcases hstays.noticed hsigned base hspans.watched cls hcls with hold | hgap
  · exact (hspans.reached cls hold).imp_left (he.before.reaches hids)
  · exact Or.inr hgap

theorem Session.Spanning.mono {more : List InstanceId} (h : s.Spanning A call ids base)
    (hsub : ∀ id ∈ ids, id ∈ more) : s.Spanning A call more base := by
  intro hnone hsigned
  have hspans := h hnone hsigned
  refine ⟨hspans.watched, fun cls hcls => (hspans.reached cls hcls).imp_left ?_⟩
  rintro ⟨id, hid, howner⟩
  exact ⟨id, hsub id hid, howner⟩

/-- As long as the resolution of a call is not overtaken by another one, nothing has been found
on an owner because it is vacant, or the call has been deferred. -/
def Session.Lacks (s : Session) (A : Agenda) (call : CallId) (owner : TypeId) : Prop :=
  (s.call call).targets = none → (s.call call).deferred = true ∨
    ((s.call call).signature ≠ none → s.IsVacant A.gaps call owner)

theorem Session.Lacks.of_spanning (hshape : s.types.shape owner = .hierarchy base ∨
      s.types.shape owner = .hierarchyMetaclass base)
    (h : (s.call call).targets = none → (s.call call).deferred = true ∨ s.Spanning A call [] base) :
    s.Lacks A call owner :=
  fun hnone => (h hnone).imp_right fun hspans hsigned => ⟨base, hshape, hspans hnone hsigned⟩

theorem Session.Lacks.later (h : s.Lacks A call owner) (hcall : s.HasCall call)
    (he : Episode ∅ (s, A) (s', A)) : s'.Lacks A call owner := by
  intro hnone
  have hstays := he.keeps call hcall (Set.notMem_empty call) hnone
  refine (h hstays.targets).imp hstays.deferred fun hvacant hsigned => ?_
  obtain ⟨base, hshape, hspans⟩ := hvacant fun heq => hsigned ((hstays.signature hsigned).trans heq)
  have hspanning : s.Spanning A call [] base := fun _ _ => hspans
  refine ⟨base, hshape.imp he.before.types.shape_hierarchy
    he.before.types.shape_hierarchyMetaclass, ?_⟩
  exact hspanning.later (by simp) hcall he hnone hsigned

/-- The instances found for a call on an owner that may be a hierarchy. -/
structure Session.FindsOn (s : Session) (A : Agenda) (call : CallId) (shape : Shape)
    (owner : TypeId) (ids : List InstanceId) : Prop where
  fits : ∀ id ∈ ids, s.Fits A call id
  spans :
    ∀ base, shape = .hierarchy base → (s.call call).receiver ≠ none → s.Spanning A call ids base
  lacks : ids = [] → s.Lacks A call owner

theorem Session.FindsOn.later {shape : Shape} (h : s.FindsOn A call shape owner ids)
    (hs : s.Tended A) (hcall : s.HasCall call) (he : Episode ∅ (s, A) (s', A)) :
    s'.FindsOn A call shape owner ids where
  fits := fun id hid => (h.fits id hid).later hs hcall he
  spans := by
    intro base hshape hreceiver
    rw [(he.before.call call hcall).receiver] at hreceiver
    exact (h.spans base hshape hreceiver).later (fun id hid => (h.fits id hid).has) hcall he
  lacks := fun hnil => (h.lacks hnil).later hcall he

namespace Infer

/-! ## Resolving on one owner -/

section

variable (he : engine.Guides) (hs : s.Tended A) (hcall : s.HasCall call)
  (hfits : found.Fits s call owner typed) (hle : typed ≤ (s.call call).args.length)
  (heq : selfType.isSome = true → typed = (s.call call).args.length)
include he hs hcall hfits hle heq

theorem instantiateAll_leads :
    Leads ∅ (instantiateAll engine call selfType found) s A A fun ids s' =>
      (∀ m ∈ found.found, ∃ id ∈ ids, s'.Fits A call id ∧ (s'.instanceAt id).owner = m.owner) ∧
        ∀ id ∈ ids, ∃ m ∈ found.found, s'.Fits A call id ∧ (s'.instanceAt id).owner = m.owner := by
  refine Leads.mapM_each found.found ?_ fun m hm s1 h1 => ?_
  · intro m id s1 s2 h1 h2 ⟨hid, howner⟩
    refine ⟨hid.later (h1.tended hs) (h1.before.hasCall hcall) h2, ?_⟩
    exact (h2.before.inst id hid.has).owner.trans howner
  · have hsuits := (hfits m hm).2.suits hle heq
    exact instantiate_leads he (h1.tended hs) (h1.before.hasCall hcall)
      (hsuits.later h1.before hcall)

theorem settle_leads (name : String) :
    Leads ∅ (settle engine call owner selfType name found) s A A fun ids s' =>
      s'.Finds A call owner ids := by
  unfold settle
  split
  next hfull =>
    refine (instantiateAll_leads he hs hcall hfits hle heq).post
      fun ids s1 h1 ⟨hmatches, hids⟩ => ?_
    have hne : found.found ≠ [] := by
      rintro hnil
      simp [MatchSet.isEmpty, hnil] at hfull
    obtain ⟨m, hm⟩ := List.exists_mem_of_ne_nil _ hne
    obtain ⟨id, hid, -, howner⟩ := hmatches m hm
    refine ⟨fun id hid => ?_, fun hreceiver _ => ?_, fun hnil => ?_⟩
    · obtain ⟨m, -, hfits, -⟩ := hids id hid
      exact hfits
    · rw [(h1.before.call call hcall).receiver] at hreceiver
      exact ⟨id, hid, howner.trans ((hfits m hm).1 hreceiver)⟩
    · exact absurd (hnil ▸ hid) List.not_mem_nil
  next =>
    split
    next hdead =>
      refine .move hs (.defer call) rfl fun _ _ => .pure ⟨by simp, fun _ hne => ?_, fun _ _ => ?_⟩
      · exact absurd hdead hne
      · rw [s.call_changeCall_self _ hcall]
    next => exact failUnresolved_leads _ _ _

end

section

variable (he : engine.Guides) (hs : s.Tended A) (hcall : s.HasCall call)
  (hself : s.PassesSelf call selfType)
include he hs hcall hself

theorem resolveConcrete_leads (name : String) (owner : TypeId) :
    Leads ∅ (resolveConcrete engine call selfType name owner) s A A fun ids s' =>
      s'.Finds A call owner ids := by
  refine (findMatches_leads hs owner name).bind fun found s1 h1 ⟨⟨t, heq, _⟩, hfits⟩ => ?_
  subst heq
  exact settle_leads he (h1.tended hs) hcall hfits (s.length_argTypes_le call)
    hself.length_argTypes name

/-- What is found on the classes below a base spans it, and if nothing is found there are none. -/
theorem resolveBelow_leads (hbase : s.types.Known base) (name : String) (onMeta : Bool) :
    Leads ∅ (resolveBelow engine call selfType name base onMeta) s A A fun ids s' =>
      (∀ id ∈ ids, s'.Fits A call id) ∧
        (onMeta = false → (s.call call).receiver ≠ none → s'.Spanning A call ids base) ∧
        (ids = [] → (s'.call call).targets = none →
          (s'.call call).deferred = true ∨ s'.Spanning A call [] base) := by
  refine .move hs (.watch hcall hbase) rfl fun hs1 hb1 => ?_
  refine (build_leads hs1 (hierarchy_builds hbase)).next hs1
    fun hierarchy s2 h2 hs2 ⟨t, heq, hext, hfind⟩ => .get_bind ?_
  have hb2 := hb1.trans h2.before
  have hcall2 := hb2.hasCall hcall
  have hself2 := hb2.passesSelf hcall hself
  have hwatched : (call, base) ∈ s2.watch.pairs := by
    subst heq
    exact (SubclassWatch.mem_add _ _ _ _).2 (Or.inr rfl)
  have hshape : s2.types.shape hierarchy = .hierarchy base := by
    subst heq
    exact shape_of_find? hfind
  have hbelow : Leads ∅ ((s2.types.concreteTypes hierarchy).mapM fun cls => do
      let owner ← if onMeta then build (metaclass cls) else pure cls
      resolveConcrete engine call selfType name owner) s2 A A fun found s' =>
        (∀ cls ∈ s2.types.concreteTypes hierarchy, ∃ ids ∈ found,
          ∃ owner, s'.Finds A call owner ids ∧ (onMeta = false → owner = cls)) ∧
        ∀ ids ∈ found, ∃ cls ∈ s2.types.concreteTypes hierarchy,
          ∃ owner, s'.Finds A call owner ids ∧ (onMeta = false → owner = cls) := by
    refine Leads.mapM_each _ ?_ fun cls _ s3 h3 => ?_
    · exact fun cls ids s3 s4 h3 h4 ⟨owner, hfinds, howner⟩ =>
        ⟨owner, hfinds.later (h3.tended hs2) (h3.before.hasCall hcall2) h4, howner⟩
    have hs3 := h3.tended hs2
    have hcall3 := h3.before.hasCall hcall2
    have hself3 := h3.before.passesSelf hcall2 hself2
    cases onMeta with
    | false =>
      exact (resolveConcrete_leads he hs3 hcall3 hself3 name cls).post
        fun ids s4 _ hfinds => ⟨cls, hfinds, fun _ => rfl⟩
    | true =>
      refine (build_leads hs3 (metaclass_builds hs3.types cls)).bind fun owner s4 h4 _ => ?_
      exact (resolveConcrete_leads he (h4.tended hs3) (h4.before.hasCall hcall3)
        (h4.before.passesSelf hcall3 hself3) name owner).post
        fun ids s5 _ hfinds => ⟨owner, hfinds, fun h => absurd h (by simp)⟩
  refine hbelow.bind fun found s3 h3 ⟨hclasses, hfound⟩ => .pure ⟨?_, ?_, ?_⟩
  · intro id hid
    obtain ⟨ids, hids, hmem⟩ := List.mem_flatten.1 hid
    obtain ⟨-, -, owner, hfinds, -⟩ := hfound ids hids
    exact hfinds.fits id hmem
  · intro hmeta hreceiver hnone hsigned
    have hstays := h3.keeps call hcall2 (Set.notMem_empty call) hnone
    refine ⟨hstays.watched hsigned base hwatched, fun cls hcls => ?_⟩
    rcases hstays.noticed hsigned base hwatched cls hcls with hold | hgap
    · obtain ⟨ids, hids, owner, hfinds, howner⟩ := hclasses cls
        ((mem_concreteTypes_hierarchy hs2.types hshape).2 hold)
      obtain rfl := howner hmeta
      have hreceiver3 : (s3.call call).receiver ≠ none := by
        rwa [((hb2.trans h3.before).call call hcall).receiver]
      have hne : owner ≠ .noReturn := by
        rintro rfl
        obtain ⟨-, info, hinfo, -⟩ := hold
        rw [hs2.types.noReturn] at hinfo
        exact Shape.noConfusion hinfo
      obtain ⟨id, hid, hreached⟩ := hfinds.reaches hreceiver3 hne
      exact Or.inl ⟨id, List.mem_flatten.2 ⟨ids, hids, hid⟩, hreached⟩
    · exact Or.inr hgap
  · intro hnil hnone
    have hempty : ∀ ids ∈ found, ids = [] := by simpa using hnil
    by_cases hany : ∃ cls, cls ∈ s2.types.concreteTypes hierarchy
    · obtain ⟨cls, hcls⟩ := hany
      obtain ⟨ids, hids, owner, hfinds, -⟩ := hclasses cls hcls
      exact Or.inl (hfinds.deferred (hempty ids hids) hnone)
    · refine Or.inr fun _ hsigned => ?_
      have hstays := h3.keeps call hcall2 (Set.notMem_empty call) hnone
      refine ⟨hstays.watched hsigned base hwatched, fun cls hcls => ?_⟩
      refine (hstays.noticed hsigned base hwatched cls hcls).imp_left fun hold => ?_
      exact absurd ⟨cls, (mem_concreteTypes_hierarchy hs2.types hshape).2 hold⟩ hany

theorem resolveOn_leads (name : String) (owner : TypeId) :
    Leads ∅ (resolveOn engine call selfType name owner) s A A fun ids s' =>
      s'.FindsOn A call (s.types.shape owner) owner ids := by
  refine Leads.get_bind ?_
  split
  next base hshape =>
    have hbase : s.types.Known base := hs.types.known_of_hierarchy hshape
    refine (resolveBelow_leads he hs hcall hself hbase name false).post
      fun ids s1 h1 ⟨hfits, hspans, hlacks⟩ => ⟨hfits, fun other hother hreceiver => ?_,
        fun hnil => ?_⟩
    · obtain rfl : base = other := Shape.hierarchy.inj (hshape.symm.trans hother)
      rw [(h1.before.call call hcall).receiver] at hreceiver
      exact hspans rfl hreceiver
    · exact .of_spanning (Or.inl (h1.before.types.shape_hierarchy hshape)) (hlacks hnil)
  next base hshape =>
    have hbase : s.types.Known base := hs.types.known_of_hierarchyMetaclass hshape
    refine (resolveBelow_leads he hs hcall hself hbase name true).post
      fun ids s1 h1 ⟨hfits, _, hlacks⟩ => ⟨hfits, fun other hother => ?_, fun hnil => ?_⟩
    · exact absurd (hshape.symm.trans hother) (by simp)
    · exact .of_spanning (Or.inr (h1.before.types.shape_hierarchyMetaclass hshape)) (hlacks hnil)
  next hplain _ =>
    refine (findMatches_leads hs owner name).bind fun found s1 h1 hmatched => ?_
    obtain ⟨⟨t, rfl, hext⟩, hfits⟩ := hmatched
    refine Leads.get_bind ?_
    split
    next habstract =>
      have howner : t.Known owner := by
        refine known_of_shape_ne fun hshape => ?_
        simp [isAbstract, hshape] at habstract
      refine (resolveBelow_leads he (h1.tended hs) hcall hself howner name false).bind
        fun ids s2 _ hbelow => ?_
      split
      next => exact failUnresolved_leads _ _ _
      next hne =>
        refine .pure ⟨hbelow.1, fun base hshape => absurd hshape (hplain base), fun hnil => ?_⟩
        exact absurd (by simp [hnil]) hne
    next =>
      refine (settle_leads he (h1.tended hs) hcall hfits (s.length_argTypes_le call)
        hself.length_argTypes name).post fun ids s2 _ hfinds => ⟨hfinds.fits, fun base hshape => ?_,
          fun hnil hnone => Or.inl (hfinds.deferred hnil hnone)⟩
      exact absurd hshape (hplain base)

end

/-- `super` goes on above the owner of the method around the call. -/
theorem resolveSuper_leads (he : engine.Guides) (hs : s.Tended A) (hcall : s.HasCall call)
    (hreceiver : (s.call call).receiver = none)
    (htyped : ∀ arg ∈ (s.call call).argNodes, s.typeOf arg ≠ none) :
    Leads ∅ (resolveSuper engine call) s A A fun ids s' =>
      (∀ id ∈ ids, s'.Fits A call id) ∧ (ids = [] → ∃ owner, s'.Lacks A call owner) := by
  refine Leads.get_bind ?_
  dsimp only
  split
  next => exact .fail _ _
  next id _ =>
    refine (build_leads hs (superOwner?_builds hs.types _)).bind fun parent s1 h1 ⟨t, heq, _⟩ => ?_
    subst heq
    cases parent with
    | none => exact .fail _ _
    | some parent =>
      refine (resolveOn_leads he (h1.tended hs) hcall (fun _ => ⟨hreceiver, htyped⟩) _
        parent).post fun ids s2 _ hfinds => ⟨hfinds.fits, fun hnil => ⟨parent, hfinds.lacks hnil⟩⟩

/-- What is known of the instances that a call means. -/
structure Finding (s s' : Session) (A : Agenda) (call : CallId) (receiver : Option TypeId)
    (ids : List InstanceId) : Prop where
  fits : ∀ id ∈ ids, s'.Fits A call id
  spans :
    ∀ type, receiver = some type → (s.call call).receiver ≠ none →
      ∀ member ∈ s.types.members type, ∀ base, s.types.shape member = .hierarchy base →
        s'.Spanning A call ids base
  lacks :
    ids = [] → ∀ type, receiver = some type → ∀ member ∈ s.types.members type,
      s'.Lacks A call member
  lacksSelf :
    ids = [] → receiver = none → ∃ owner, s'.Lacks A call owner ∧
      ((s.call call).name ≠ "super" → owner = (s.scope (s.call call).scope).selfType)

theorem resolve_leads {receiver : Option TypeId} (he : engine.Guides) (hs : s.Tended A)
    (hcall : s.HasCall call) (hreceiver : receiver = none → (s.call call).receiver = none)
    (htyped : (s.call call).receiver = none →
      ∀ arg ∈ (s.call call).argNodes, s.typeOf arg ≠ none) :
    Leads ∅ (resolve engine call receiver) s A A fun ids s' =>
      Finding s s' A call receiver ids := by
  have hdirect : s.PassesSelf call none := fun h => absurd h (by simp)
  refine Leads.get_bind ?_
  cases receiver with
  | some type =>
    have hmembers : Leads ∅
        ((s.types.members type).mapM (resolveOn engine call none (s.call call).name)) s A A
        fun found s' =>
          (∀ member ∈ s.types.members type, ∃ ids ∈ found,
            s'.FindsOn A call (s.types.shape member) member ids) ∧
          ∀ ids ∈ found, ∃ member ∈ s.types.members type,
            s'.FindsOn A call (s.types.shape member) member ids := by
      refine Leads.mapM_each _ ?_ fun member hmember s1 h1 => ?_
      · exact fun member ids s1 s2 h1 h2 hfinds =>
          hfinds.later (h1.tended hs) (h1.before.hasCall hcall) h2
      · have hcall1 := h1.before.hasCall hcall
        refine (resolveOn_leads he (h1.tended hs) hcall1 (h1.before.passesSelf hcall hdirect)
          _ member).post fun ids s2 _ hfinds => ⟨hfinds.fits, fun base hshape => ?_, hfinds.lacks⟩
        exact hfinds.spans base (h1.before.types.shape_hierarchy hshape)
    refine hmembers.bind fun found s1 h1 ⟨hfound, hids⟩ => .pure ⟨?_, ?_, ?_, by simp⟩
    · intro id hid
      obtain ⟨ids, hmem, hid⟩ := List.mem_flatten.1 hid
      obtain ⟨_, _, hfinds⟩ := hids ids hmem
      exact hfinds.fits id hid
    · intro other hother hreceiver member hmember base hshape
      cases hother
      obtain ⟨ids, hmem, hfinds⟩ := hfound member hmember
      rw [← (h1.before.call call hcall).receiver] at hreceiver
      exact (hfinds.spans base hshape hreceiver).mono
        fun id hid => List.mem_flatten.2 ⟨ids, hmem, hid⟩
    · intro hnil other hother member hmember
      cases hother
      obtain ⟨ids, hmem, hfinds⟩ := hfound member hmember
      exact hfinds.lacks (List.flatten_eq_nil_iff.1 hnil ids hmem)
  | none =>
    dsimp only
    split
    next hsuper =>
      refine (resolveSuper_leads he hs hcall (hreceiver rfl) (htyped (hreceiver rfl))).post
        fun ids s1 _ ⟨hfits, hlacks⟩ => ⟨hfits, by simp, by simp, fun hnil _ => ?_⟩
      obtain ⟨owner, hlacks⟩ := hlacks hnil
      exact ⟨owner, hlacks, fun hname => absurd hsuper hname⟩
    next =>
      exact (resolveOn_leads he hs hcall hdirect _ _).post fun ids s1 _ hfinds =>
        ⟨hfinds.fits, by simp, by simp, fun hnil _ => ⟨_, hfinds.lacks hnil, fun _ => rfl⟩⟩

end Infer

end Callsite
