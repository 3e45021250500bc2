import Callsite.Proofs.Forest.Instances

/-!
# Resolving calls over a forest

A call of `coco` on a union of classes of a forest finds, for every concrete class of the union,
the definition of `coco` that the class has, and watches the hierarchies of the union.  Nothing
that was there before changes on the way.
-/

namespace Callsite

open Forest TypeTable

variable {more : List ClassSource} {α : Type} {t : TypeTable} {set : MatchSet}

/-! ## Definitions of `coco` -/

namespace Forest

variable {classes more : List ClassSource} {c definer definer' : ClassSource}

theorem Inherits.mono (h : Inherits classes c definer) (hsub : ∀ c ∈ classes, c ∈ more) :
    Inherits more c definer := by
  induction h with
  | own h => exact .own h
  | above hnone hparent hname _ ih => exact .above hnone (hsub _ hparent) hname ih

/-- A class has one definition of `coco`. -/
theorem Inherits.unique (hforest : IsForest classes) (h : Inherits classes c definer)
    (h' : Inherits classes c definer') : definer = definer' := by
  induction h with
  | own hsome =>
    cases h' with
    | own => rfl
    | above hnone => simp [hnone] at hsome
  | above hnone hparent hname _ ih =>
    cases h' with
    | own hsome => simp [hnone] at hsome
    | above _ hparent' hname' h' =>
      have hsame := Option.some.inj (hname.symm.trans hname')
      obtain rfl := hforest.eq_of_name hparent hparent' hsame
      exact ih h'

end Forest

namespace TypeTable

variable {t t' : TypeTable} {classes : List ClassSource} {c definer : ClassSource} {type : TypeId}
  {method : MethodId}

/-- A method is the `coco` that a class of the forest has. -/
structure Provides (t : TypeTable) (classes : List ClassSource) (type : TypeId)
    (definer : ClassSource) (method : MethodId) : Prop where
  known : method.index < t.methods.size
  inherits : ∃ c ∈ classes, t.Represents c type ∧ Inherits classes c definer
  method : ∃ d owner, definer.coco = some d ∧ t.constant? definer.name = some owner ∧
    t.method method = ⟨method, d.decl, owner, .user, none⟩

section

variable (h : t.Provides classes type definer method)
include h

theorem Provides.later (hg : t.Grows t')
    (hclasses : ∀ c ∈ classes, c ∈ more ∧ ∀ type, t.Represents c type → t'.Represents c type)
    (hconstants : ∀ name type, t.constant? name = some type → t'.constant? name = some type) :
    t'.Provides more type definer method where
  known := h.known.trans_le hg.methods_le
  inherits := by
    obtain ⟨c, hc, hr, hinherits⟩ := h.inherits
    exact ⟨c, (hclasses c hc).1, (hclasses c hc).2 type hr,
      hinherits.mono fun c hc => (hclasses c hc).1⟩
  method := by
    obtain ⟨d, owner, hd, howner, hmethod⟩ := h.method
    exact ⟨d, owner, hd, hconstants _ _ howner, (hg.method method h.known).trans hmethod⟩

theorem Provides.widens (hw : t.Widens t') (hf : t.Founded) :
    t'.Provides classes type definer method := by
  refine h.later hw.grows (fun c hc => ⟨hc, fun type hr => hr.widens hw hf⟩)
    fun name type htype => ?_
  rw [constant?, hw.constants_eq]
  exact htype

/-- The literal that it returns is of the type of the definition. -/
theorem Provides.evaluates (owner : TypeId) :
    ∃ literal, definer.literal? = some literal ∧ t.Evaluates method owner literal := by
  obtain ⟨d, definerType, hd, -, hmethod⟩ := h.method
  refine ⟨d.result.type, by simp [ClassSource.literal?, hd], h.known, ?_, ?_,
    ⟨d.result.form, d.resultSpan⟩, ?_, t.valueOf?_literal owner d.result⟩
  all_goals
    rw [hmethod]
    rfl

end

/-- A class of the forest answers to a call of `coco` with the definition that it has. -/
theorem Planted.fitting_coco (h : t.Planted classes) (hforest : IsForest classes) (hc : c ∈ classes)
    (hr : t.Represents c type) :
    ∃ definer method rest, t.Provides classes type definer method ∧
      t.fittingMethods type "coco" 0 false = method :: rest := by
  obtain ⟨definer, d, owner, method, rest, hinherits, hd, howner, hnamed, hslot, hmethod⟩ :=
    h.exists_method hforest hc hr
  have haccepts : (t.method method).accepts 0 false = true := by
    rw [hmethod]
    rfl
  refine ⟨definer, method, rest.filter fun id => (t.method id).accepts 0 false,
    ⟨h.regular.founded.slots method hslot, ⟨c, hc, hr, hinherits⟩, ⟨d, owner, hd, howner, hmethod⟩⟩,
    ?_⟩
  rw [fittingMethods, hnamed]
  exact List.filter_cons_of_pos haccepts

end TypeTable

/-! ## Instances of `coco` -/

namespace Session

variable {s s' : Session} {classes : List ClassSource} {taken : List NodeId} {type : TypeId}
  {id : InstanceId} {call : CallId} {P P' : TypeId → Prop} {ids : List InstanceId}

/-- An instance is that of the `coco` of a class. -/
structure Enacts (s : Session) (classes : List ClassSource) (type : TypeId) (id : InstanceId) :
    Prop where
  has : s.HasInstance id
  owner : (s.instanceAt id).owner = type
  provides : ∃ definer, s.types.Provides classes type definer (s.instanceAt id).method

/-- Instances are those of the `coco` of some classes, and each of these has one. -/
structure Staffs (s : Session) (classes : List ClassSource) (P : TypeId → Prop)
    (ids : List InstanceId) : Prop where
  served : ∀ id ∈ ids, ∃ type, P type ∧ s.Enacts classes type id
  staffed : ∀ type, P type → ∃ id ∈ ids, s.Enacts classes type id

theorem Enacts.later (h : s.Enacts classes type id) (hhas : s'.HasInstance id)
    (hinst : s'.instanceAt id = s.instanceAt id)
    (hprovides : ∀ definer method, s.types.Provides classes type definer method →
      s'.types.Provides more type definer method) : s'.Enacts more type id := by
  obtain ⟨definer, hdefiner⟩ := h.provides
  refine ⟨hhas, by rw [hinst, h.owner], definer, ?_⟩
  rw [hinst]
  exact hprovides definer _ hdefiner

namespace Staffs

/-- Instances go on to serve while they are there and what they provide is. -/
theorem later (h : s.Staffs classes P ids)
    (hhas : ∀ id, s.HasInstance id → s'.HasInstance id ∧ s'.instanceAt id = s.instanceAt id)
    (hprovides : ∀ type definer method, s.types.Provides classes type definer method →
      s'.types.Provides more type definer method) : s'.Staffs more P ids := by
  have hlater : ∀ {type id}, s.Enacts classes type id → s'.Enacts more type id := fun henacts =>
    henacts.later (hhas _ henacts.has).1 (hhas _ henacts.has).2 (hprovides _)
  refine ⟨fun id hid => ?_, fun type htype => ?_⟩
  · obtain ⟨type, htype, henacts⟩ := h.served id hid
    exact ⟨type, htype, hlater henacts⟩
  · obtain ⟨id, hid, henacts⟩ := h.staffed type htype
    exact ⟨id, hid, hlater henacts⟩

theorem enlarged (h : s.Staffs classes P ids) (henlarges : s.Enlarges call s')
    (hf : s.types.Founded) : s'.Staffs classes P ids :=
  h.later (fun id hid => ⟨henlarges.hasInstance hid, henlarges.instances id hid⟩)
    fun _ _ _ hprovides => hprovides.widens henlarges.widens hf

theorem congr (h : s.Staffs classes P ids) (hP : ∀ type, P type ↔ P' type) :
    s.Staffs classes P' ids where
  served := by
    intro id hid
    obtain ⟨type, htype, henacts⟩ := h.served id hid
    exact ⟨type, (hP type).1 htype, henacts⟩
  staffed := fun type htype => h.staffed type ((hP type).2 htype)

theorem singleton (h : s.Enacts classes type id) : s.Staffs classes (· = type) [id] where
  served := by
    intro other hother
    rw [List.mem_singleton.1 hother]
    exact ⟨type, rfl, h⟩
  staffed := by
    rintro type rfl
    exact ⟨id, List.mem_singleton_self id, h⟩

/-- What is found for the parts of a type together. -/
theorem flatten {P : α → TypeId → Prop} {l : List α} {found : List (List InstanceId)}
    (h : List.Forall₂ (fun a ids => s.Staffs classes (P a) ids) l found) :
    s.Staffs classes (fun type => ∃ a ∈ l, P a type) found.flatten := by
  induction h with
  | nil => exact ⟨by simp, by simp⟩
  | @cons first ids rest others hfirst _ ih =>
    refine ⟨fun id hid => ?_, ?_⟩
    · rw [List.flatten_cons, List.mem_append] at hid
      rcases hid with hid | hid
      · obtain ⟨type, htype, henacts⟩ := hfirst.served id hid
        exact ⟨type, ⟨first, List.mem_cons_self, htype⟩, henacts⟩
      · obtain ⟨type, ⟨a, ha, htype⟩, henacts⟩ := ih.served id hid
        exact ⟨type, ⟨a, List.mem_cons_of_mem first ha, htype⟩, henacts⟩
    · rintro type ⟨a, ha, htype⟩
      rcases List.mem_cons.1 ha with rfl | ha
      · obtain ⟨id, hid, henacts⟩ := hfirst.staffed type htype
        exact ⟨id, List.mem_append_left _ hid, henacts⟩
      · obtain ⟨id, hid, henacts⟩ := ih.staffed type ⟨a, ha, htype⟩
        exact ⟨id, List.mem_append_right _ hid, henacts⟩

end Staffs

/-- Instances are what a call of `coco` on a type asks for, and the call watches the hierarchies in
the type. -/
structure Dispatches (s : Session) (classes : List ClassSource) (call : CallId) (type : TypeId)
    (targets : List InstanceId) : Prop where
  staffs : s.Staffs classes (· ∈ s.types.concreteTypes type) targets
  watched : ∀ part ∈ s.types.parts type, ∀ base, s.types.shape part = .hierarchy base →
    (call, base) ∈ s.watch.pairs

theorem Dispatches.widened (h : s.Dispatches classes call type ids) (hw : s.types.Widens s'.types)
    (hf : s.types.Founded) (hf' : s'.types.Founded) (hk : s.types.Known type)
    (hinstances : s'.instances = s.instances) (hwatch : s'.watch = s.watch) :
    s'.Dispatches classes call type ids where
  staffs := by
    have hlater : s'.Staffs classes (· ∈ s.types.concreteTypes type) ids := by
      refine h.staffs.later (fun id hid => ?_) fun _ _ _ hprovides => hprovides.widens hw hf
      rw [HasInstance, instanceAt, hinstances]
      exact ⟨hid, rfl⟩
    exact hlater.congr fun x => (hw.mem_concreteTypes_iff hf hf' hk).symm
  watched := by
    intro part hpart base hshape
    rw [hw.grows.parts_eq hk] at hpart
    rw [hw.shape_eq part (hf.known_of_mem_parts hk hpart)] at hshape
    rw [hwatch]
    exact h.watched part hpart base hshape

/-- A session in which a forest has been declared, and that has room for more. -/
structure Grown (s : Session) (classes : List ClassSource) (taken : List NodeId) : Prop where
  planted : s.types.Planted classes
  stocked : s.Stocked taken
  taken : ∀ node ∈ taken, s.HasNode node
  agrees : s.watch.Agrees
  room : s.HasRoom

/-- What a call without arguments needs to be resolved over a forest. -/
structure Ready (s : Session) (classes : List ClassSource) (taken : List NodeId) (call : CallId) :
    Prop extends s.Grown classes taken where
  args : (s.call call).args = []
  block : (s.call call).block = none

theorem Retains.grown {more : List ClassSource} (h : s.Retains call s') (hs : s.Grown classes taken)
    (hplanted : s'.types.Planted more) : s'.Grown more taken where
  planted := hplanted
  stocked := h.stocked taken hs.taken hs.stocked
  taken := fun node hnode => (hs.taken node hnode).trans_le h.size_le
  agrees := h.agrees hs.agrees
  room := h.room hs.room

theorem Ready.retained (h : s.Ready classes taken call) (hretains : s.Retains call s')
    (hplanted : s'.types.Planted classes) : s'.Ready classes taken call where
  toGrown := hretains.grown h.toGrown hplanted
  args := by rw [hretains.call_eq, h.args]
  block := by rw [hretains.call_eq, h.block]

theorem Ready.enlarged (h : s.Ready classes taken call) (henlarges : s.Enlarges call s') :
    s'.Ready classes taken call :=
  h.retained henlarges.toRetains
    (h.planted.widens henlarges.widens (henlarges.regular h.planted.regular))

theorem Retains.retyped (s : Session) (hgrows : s.types.Grows t) :
    s.Retains call { s with types := t } where
  __ := Retains.refl call s
  grows := hgrows
  stocked := fun _ _ hs =>
    hs.later hgrows le_rfl hs.thawed rfl (fun _ => rfl) (fun _ _ _ => rfl) fun _ => Or.inl

theorem Enlarges.watching (s : Session) (base : TypeId) :
    s.Enlarges call { s with watch := s.watch.add call base } where
  __ := Retains.refl call s
  watched := fun pair hpair => (SubclassWatch.mem_add _ _ _ _).2 (Or.inl hpair)
  watches := by
    intro pair hpair
    rcases (SubclassWatch.mem_add _ _ _ _).1 hpair with hpair | rfl
    · exact Or.inl hpair
    · exact Or.inr rfl
  agrees := fun hs => hs.add call base
  widens := .refl _
  regular := id
  stocked := fun _ _ hs =>
    hs.later (.refl _) le_rfl hs.thawed rfl (fun _ => rfl) (fun _ _ _ => rfl)
      fun _ => Or.inl

theorem Enlarges.widening (s : Session) (hwidens : s.types.Widens t)
    (hregular : s.types.Regular → t.Regular) : s.Enlarges call { s with types := t } where
  toRetains := .retyped s hwidens.grows
  widens := hwidens
  regular := hregular

end Session

/-! ## Calls of `coco` -/

namespace Infer

open Session

variable {s : Session} {classes : List ClassSource} {taken : List NodeId} {call : CallId}
  {c : ClassSource}
  {type owner base : TypeId} (fuel : Nat)

variable (h : s.Ready classes taken call)
include h

theorem settle_runs {found : Match} (hset : set.isEmpty = false) (hfound : set.found = [found])
    (hevaluates : s.types.Evaluates found.method found.owner type) (hargs : found.args = [])
    (owner : TypeId) (name : String) :
    Runs (settle (.ofFuel (fuel + 1)) call owner none name set) s fun ids s' =>
      s.Enlarges call s' ∧ s'.watch = s.watch ∧ ∃ id, ids = [id] ∧ s'.HasInstance id ∧
        (s'.instanceAt id).method = found.method ∧ (s'.instanceAt id).owner = found.owner := by
  have hinstantiate : Runs (instantiate (.ofFuel (fuel + 1)) call found none) s _ :=
    instantiate_runs h.stocked hevaluates hargs h.args h.block h.planted.regular
      h.planted.overClasses h.room
  rw [settle, hset]
  simp only [Bool.not_false, if_true, instantiateAll, hfound, List.mapM_cons, List.mapM_nil]
  refine hinstantiate.bind fun id s' hid => ?_
  exact Returns.runs rfl ⟨hid.1, hid.2.1, id, rfl, hid.2.2⟩

/-- A call without arguments finds a method that fits it. -/
theorem findMatches_returns {name : String} {method : MethodId} {rest : List MethodId}
    (hfitting : s.types.fittingMethods owner name 0 false = method :: rest) :
    ∃ set, set.isEmpty = false ∧ set.found = [⟨method, owner, [], .empty, .direct⟩] ∧
      Returns (findMatches call owner name) s set s := by
  obtain ⟨cover, hcomplete, hlookup⟩ := lookupMatches_of_fitting hfitting
  have hset : (MatchSet.mk [⟨method, owner, [], .empty, .direct⟩] (some cover) owner).isEmpty
      = false := by
    simp [MatchSet.isEmpty, hcomplete]
  refine ⟨_, hset, rfl, .get_bind ?_⟩
  have hargs : s.argTypes call = [] := by simp [argTypes, CallSite.argNodes, h.args]
  have hblock : (s.call call).hasBlock = false := by simp [CallSite.hasBlock, h.block]
  have hbuild : Returns (build (lookupMatches owner name [] false)) s
      ⟨[⟨method, owner, [], .empty, .direct⟩], some cover, owner⟩ s := by
    rw [Returns, build, hlookup]
  simp only [hargs, hblock]
  refine hbuild.bind ?_
  simp only [hset, Bool.not_false, if_true]
  exact .pure _ _

/-- A call of `coco` on a class of the forest is looked up without failure. -/
theorem findMatches_coco (hforest : IsForest classes) (hc : c ∈ classes)
    (hr : s.types.Represents c owner) :
    ∃ definer method set, s.types.Provides classes owner definer method ∧
      set.isEmpty = false ∧ set.found = [⟨method, owner, [], .empty, .direct⟩] ∧
      Returns (findMatches call owner "coco") s set s := by
  obtain ⟨definer, method, rest, hprovides, hfitting⟩ := h.planted.fitting_coco hforest hc hr
  exact ⟨definer, method, (findMatches_returns h hfitting).imp fun _ => .intro hprovides⟩

theorem settle_coco_runs {definer : ClassSource} {method : MethodId}
    (hprovides : s.types.Provides classes owner definer method) (hset : set.isEmpty = false)
    (hfound : set.found = [⟨method, owner, [], .empty, .direct⟩]) :
    Runs (settle (.ofFuel (fuel + 1)) call owner none "coco" set) s fun ids s' =>
      s.Enlarges call s' ∧ s'.Staffs classes (· = owner) ids := by
  obtain ⟨literal, -, hevaluates⟩ := hprovides.evaluates owner
  refine (settle_runs _ h hset hfound hevaluates rfl _ "coco").mono ?_
  rintro ids s' ⟨henlarges, -, id, rfl, hid, hmethod, howner⟩
  refine ⟨henlarges, .singleton ⟨hid, howner, definer, ?_⟩⟩
  rw [hmethod]
  exact hprovides.widens henlarges.widens h.planted.regular.founded

/-- A call of `coco` is resolved on a class of the forest. -/
theorem resolveConcrete_runs (hforest : IsForest classes) (hc : c ∈ classes)
    (hr : s.types.Represents c owner) :
    Runs (resolveConcrete (.ofFuel (fuel + 1)) call none "coco" owner) s fun ids s' =>
      s.Enlarges call s' ∧ s'.Staffs classes (· = owner) ids := by
  obtain ⟨definer, method, set, hprovides, hset, hfound, hmatches⟩ :=
    findMatches_coco h hforest hc hr
  exact hmatches.runs_bind (settle_coco_runs _ h hprovides hset hfound)

/-- What is found on several owners in turn. -/
theorem mapM_staffs_runs {f : α → Infer (List InstanceId)} {P B : α → TypeId → Prop} (l : List α)
    (hf : ∀ a ∈ l, ∀ s', s.Enlarges call s' → Runs (f a) s' fun ids s'' =>
      s'.Enlarges call s'' ∧ s''.Staffs classes (P a) ids ∧
        ∀ base, B a base → (call, base) ∈ s''.watch.pairs) :
    Runs (do let found ← l.mapM f; pure found.flatten) s fun ids s' =>
      s.Enlarges call s' ∧ s'.Staffs classes (fun type => ∃ a ∈ l, P a type) ids ∧
        ∀ a ∈ l, ∀ base, B a base → (call, base) ∈ s'.watch.pairs := by
  have hall : Runs (l.mapM f) s fun found s' => s.Enlarges call s' ∧
      List.Forall₂ (fun a ids => s'.types.Regular ∧ s'.Staffs classes (P a) ids ∧
        ∀ base, B a base → (call, base) ∈ s'.watch.pairs) l found := by
    refine Runs.mapM (.refl call) .trans ?_ l fun a ha s' hs' => ?_
    · rintro a ids s s' ⟨hregular, hstaffs, hwatched⟩ henlarges
      exact ⟨henlarges.regular hregular, hstaffs.enlarged henlarges hregular.founded,
        fun base hbase => henlarges.watched _ (hwatched base hbase)⟩
    · refine (hf a ha s' hs').mono ?_
      rintro ids s'' ⟨henlarges, hfound⟩
      exact ⟨henlarges, (hs'.trans henlarges).regular h.planted.regular, hfound⟩
  refine hall.bind ?_
  rintro found s' ⟨henlarges, hfound⟩
  have hparts := (List.forall₂_and_left l found).1 (hfound.imp fun _ _ hone => ⟨hone.2.2, hone.2.1⟩)
  exact Returns.runs (.pure _ _) ⟨henlarges, .flatten hparts.2, hparts.1⟩

/-- A call of `coco` is resolved on the classes at and below a class of the forest, and watches
them. -/
theorem resolveBelow_runs (hforest : IsForest classes) (hr : s.types.Represents c base) :
    Runs (resolveBelow (.ofFuel (fuel + 1)) call none "coco" base false) s fun ids s' =>
      s.Enlarges call s' ∧ s'.Staffs classes (s.types.Realizes base) ids ∧
        (call, base) ∈ s'.watch.pairs := by
  let s1 : Session := { s with watch := s.watch.add call base }
  let s2 : Session := { s1 with types := (hierarchy base s.types).2 }
  have hbuilds := hierarchy_builds hr.known
  have hwidens : s.types.Widens s2.types := hierarchy_widens base
  have hregular : s2.types.Regular := h.planted.regular.hierarchy hr.known
  have henlarges : s.Enlarges call s2 :=
    (Enlarges.watching s base).trans (.widening s1 hwidens fun _ => hregular)
  have hready := h.enlarged henlarges
  have hclasses : ∀ x, x ∈ s2.types.concreteTypes (hierarchy base s.types).1 ↔
      s.types.Realizes base x := by
    intro x
    rw [mem_concreteTypes_hierarchy hregular.founded (shape_of_find? hbuilds.2)]
    exact hwidens.realizes_iff
  have hwatch : Returns (watch call base) s () s1 := rfl
  have hhierarchy : Returns (build (hierarchy base)) s1 (hierarchy base s.types).1 s2 := rfl
  refine hwatch.runs_bind (hhierarchy.runs_bind (.get_bind ?_))
  refine (mapM_staffs_runs (P := fun cls type => type = cls) (B := fun _ _ => False) hready _
    fun cls hcls s' hs' => ?_).mono ?_
  · obtain ⟨c', hc', hr'⟩ := h.planted.represents_of_realizes hr ((hclasses cls).1 hcls)
    have hr'' := hr'.widens (henlarges.trans hs').widens h.planted.regular.founded
    refine (resolveConcrete_runs _ (hready.enlarged hs') hforest hc' hr'').mono ?_
    rintro ids s'' ⟨henlarges', hstaffs⟩
    exact ⟨henlarges', hstaffs, fun _ => False.elim⟩
  · rintro ids s' ⟨henlarges', hstaffs, -⟩
    refine ⟨henlarges.trans henlarges', hstaffs.congr fun type => ?_, ?_⟩
    · simp [hclasses]
    · exact henlarges'.watched _ ((SubclassWatch.mem_add _ _ _ _).2 (Or.inr rfl))

/-- A call of `coco` is resolved on a class of the forest or on a hierarchy. -/
theorem resolveOn_runs {part : TypeId} (hforest : IsForest classes)
    (hpart : (∃ c ∈ classes, s.types.Represents c part) ∨
      ∃ base, s.types.shape part = .hierarchy base ∧ ∃ c ∈ classes, s.types.Represents c base) :
    Runs (resolveOn (.ofFuel (fuel + 1)) call none "coco" part) s fun ids s' =>
      s.Enlarges call s' ∧ s'.Staffs classes (s.types.Admits part) ids ∧
        ∀ base, s.types.shape part = .hierarchy base → (call, base) ∈ s'.watch.pairs := by
  refine .get_bind ?_
  rcases hpart with ⟨c, hc, hr⟩ | ⟨base, hshape, c, hc, hr⟩
  · obtain ⟨info, hshape, -⟩ := hr.shape
    obtain ⟨definer, method, set, hprovides, hset, hfound, hmatches⟩ :=
      findMatches_coco h hforest hc hr
    simp only [hshape]
    refine hmatches.runs_bind (.get_bind ?_)
    simp only [hset, Bool.false_and, Bool.false_eq_true, if_false]
    refine (settle_coco_runs _ h hprovides hset hfound).mono ?_
    rintro ids s' ⟨henlarges, hstaffs⟩
    refine ⟨henlarges, hstaffs.congr fun type => ?_, by simp⟩
    rw [Admits, hshape]
  · simp only [hshape]
    refine (resolveBelow_runs _ h hforest hr).mono ?_
    rintro ids s' ⟨henlarges, hstaffs, hwatched⟩
    refine ⟨henlarges, hstaffs.congr fun type => ?_, ?_⟩
    · rw [Admits, hshape]
    · rintro base' heq
      obtain rfl := Shape.hierarchy.inj heq
      exact hwatched

/-- A call of `coco` is resolved on all parts of a type over the forest. -/
theorem resolve_runs (hforest : IsForest classes) (hname : (s.call call).name = "coco")
    (hspans : s.types.Spans classes type) :
    Runs (resolve (.ofFuel (fuel + 1)) call (some type)) s fun ids s' =>
      s.Enlarges call s' ∧ s'.Dispatches classes call type ids := by
  have hf := h.planted.regular.founded
  refine .get_bind ?_
  simp only [hname, hspans.members_eq]
  refine (mapM_staffs_runs (P := s.types.Admits)
    (B := fun part base => s.types.shape part = .hierarchy base) h _
    fun part hpart s' hs' => ?_).mono ?_
  · have hk := hf.known_of_mem_parts hspans.known hpart
    have hshape := hs'.widens.shape_eq part hk
    have hlater := hspans.widens hs'.widens hf
    have hpart' : part ∈ s'.types.parts type := by rwa [hs'.grows.parts_eq hspans.known]
    refine (resolveOn_runs _ (h.enlarged hs') hforest (hlater.parts part hpart')).mono ?_
    rintro ids s'' ⟨henlarges, hstaffs, hwatched⟩
    rw [hshape] at hwatched
    exact ⟨henlarges, hstaffs.congr fun x => hs'.widens.admits_iff hk, hwatched⟩
  · rintro ids s' ⟨henlarges, hstaffs, hwatched⟩
    have hf' := (henlarges.regular h.planted.regular).founded
    refine ⟨henlarges, ⟨hstaffs.congr fun x => ?_, ?_⟩⟩
    · rw [henlarges.widens.mem_concreteTypes_iff hf hf' hspans.known, hspans.mem_concreteTypes hf]
    · intro part hpart base hshape
      rw [henlarges.grows.parts_eq hspans.known] at hpart
      have hk := hf.known_of_mem_parts hspans.known hpart
      rw [henlarges.widens.shape_eq part hk] at hshape
      exact hwatched part hpart base hshape

end Infer

end Callsite
