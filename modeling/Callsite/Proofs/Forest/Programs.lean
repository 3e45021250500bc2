import Callsite.Proofs.Check.CallTypes
import Callsite.Proofs.Forest.Sending

/-!
# Dispatch over forests of classes

A program declares classes, gives a variable objects of some of them, calls `coco` on it and
declares more classes.  Checking it succeeds.  Each class that the variable can have in the end,
also one that was declared after the call, is dispatched to the `coco` of the nearest class above
it that defines one, and the call has the union of what these return.
-/

namespace Callsite

open Forest TypeTable Infer

/-! ## From one declaration to all -/

theorem Forest.IsForest.append {classes rest : List ClassSource} (h : IsForest classes)
    (hrest : Declarable classes rest) : IsForest (classes ++ rest) := by
  induction rest generalizing classes with
  | nil => rwa [List.append_nil]
  | cons c rest ih =>
    have hall := ih (h.snoc hrest.1) hrest.2
    rwa [List.append_assoc] at hall

theorem TypeTable.concreteTypes_nodup (t : TypeTable) (type : TypeId) :
    (t.concreteTypes type).Nodup := by
  have hadd : ∀ {found : List TypeId} (part : TypeId), found.Nodup →
      (t.addConcrete found part).Nodup := by
    intro found part hfound
    rw [addConcrete]
    split
    · exact descendantsWithin_nodup _ _ hfound
    · exact foldl_addNew_nodup hfound _
    · exact addNew_nodup hfound part
  have hfold : ∀ (members : List TypeId) {found : List TypeId}, found.Nodup →
      (members.foldl t.addConcrete found).Nodup := by
    intro members
    induction members with
    | nil => exact id
    | cons first rest ih => exact fun hfound => ih (hadd first hfound)
  rw [concreteTypes]
  split
  · exact hfold _ List.nodup_nil
  · exact hadd _ List.nodup_nil

theorem Session.start_prepared : (start default).Prepared [] [] .empty where
  planted := by
    simp only [start]
    exact standard_planted
  stocked := by
    refine ⟨?_, fun id hid => absurd hid (Nat.not_lt_zero _), fun key id hfind => ?_⟩
    · rintro ⟨_ | n⟩ <;> rfl
    · simp [start, InstanceCache.empty, InstanceCache.find?] at hfind
  taken := by simp
  agrees := .empty
  room := by constructor <;> decide
  hasRoot := Nat.zero_lt_one
  root := rfl
  unwatched := Set.eq_empty_of_forall_notMem fun _ hpair => absurd hpair List.not_mem_nil
  news := fun id hid => absurd hid (Nat.not_lt_zero _)

/-- A program over a forest is checked. -/
theorem ForestProgram.checkWith_runs (p : ForestProgram) :
    Runs (checkWith (.ofFuel Engine.fuelSupply) p.program) (.start default) fun _ s =>
      ∃ nodes call a x type,
        s.Sent p.classes nodes ((NameMap.empty.insert "a" a).insert "x" x) call a (some x) type ∧
          s.Dispatches p.classes call type (s.call call).resolved := by
  obtain ⟨fuel, hfuel⟩ : ∃ fuel, Engine.fuelSupply = fuel + 5 := ⟨0x1000000000000 - 5, rfl⟩
  have hforest : IsForest p.early := by simpa using IsForest.nil.append p.early_declarable
  have hearly := visit_classes_prepared_runs (fuel + 3) Session.start_prepared p.early_declarable
  rw [hfuel]
  show Runs (p.program.exprs.mapM (visitWith (.ofFuel (fuel + 4)) .root)) _ _
  rw [ForestProgram.program, List.mapM_append, List.mapM_append, List.mapM_append]
  simp only [bind_assoc, pure_bind]
  refine hearly.bind fun _ s1 h1 => ?_
  refine (visit_creations_runs fuel h1 hforest p.creations_ne_nil p.created_early).bind ?_
  rintro _ s2 ⟨nodes, a, type, h2⟩
  rw [List.mapM_cons, List.mapM_nil]
  simp only [bind_assoc, pure_bind]
  refine (visit_sending_runs fuel h2 hforest p.sending).bind ?_
  rintro _ s3 ⟨nodes', call, x, h3, hdispatches⟩
  refine (visit_classes_sent_runs (fuel + 1) h3 hdispatches hforest p.late_declarable).bind ?_
  intro _ s4 h4
  exact Returns.runs (.pure _ _) ⟨nodes', call, a, x, type, h4⟩

/-! ## What the targets are -/

namespace Session

variable {s : Session} {classes : List ClassSource} {taken nodes : List NodeId}
  {vars : NameMap NodeId} {call : CallId} {a : NodeId} {follower : Option NodeId}
  {type cls : TypeId} {id id' : InstanceId} {d d' : Definition}

/-- An instance runs, on objects of a class, the `coco` of the nearest class on the chain of
superclasses that defines one. -/
structure RunsNearest (s : Session) (classes : List ClassSource) (cls : TypeId) (id : InstanceId)
    (d : Definition) : Prop where
  selfType : (s.instanceAt id).selfType = cls
  nearest : ∃ c ∈ classes, ∃ definer, s.types.constant? c.name = some cls ∧
    Inherits classes c definer ∧ definer.coco = some d ∧
    s.types.constant? definer.name = some (s.types.method (s.instanceAt id).method).owner ∧
    (s.types.method (s.instanceAt id).method).decl = d.decl

/-- There is one nearest definition. -/
theorem RunsNearest.unique (h : s.RunsNearest classes cls id d)
    (h' : s.RunsNearest classes cls id' d') (hforest : IsForest classes)
    (hplanted : s.types.Planted classes) : d = d' := by
  obtain ⟨c, hc, definer, hconstant, hinherits, hd, -⟩ := h.nearest
  obtain ⟨c', hc', definer', hconstant', hinherits', hd', -⟩ := h'.nearest
  have hr := hplanted.represents_of_constant hc hconstant
  have hr' := hplanted.represents_of_constant hc' hconstant'
  obtain rfl := hforest.eq_of_name hc hc' (hr.name_eq hr')
  obtain rfl := hinherits.unique hforest hinherits'
  exact Option.some.inj (hd.symm.trans hd')

/-- The instance of a class's `coco` has the type of the literal. -/
theorem Enacts.runsNearest (h : s.Enacts classes cls id) (hs : s.Stocked taken) :
    ∃ d, s.RunsNearest classes cls id d ∧
      s.typeOf (s.instanceAt id).node = some d.result.type := by
  have hsettled := hs.settled id h.has
  obtain ⟨definer, hprovides⟩ := h.provides
  obtain ⟨c, hc, hr, hinherits⟩ := hprovides.inherits
  obtain ⟨d, owner, hd, howner, hmethod⟩ := hprovides.method
  obtain ⟨value, hvalue, htype⟩ := hsettled.value
  obtain ⟨literal, hliteral, hevaluates⟩ := hprovides.evaluates (s.instanceAt id).owner
  obtain rfl := hvalue.unique hevaluates
  rw [ClassSource.literal?, hd] at hliteral
  refine ⟨d, ⟨hsettled.selfType.trans h.owner, c, hc, definer, hr.constant, hinherits, hd, ?_, ?_⟩,
    htype.trans hliteral.symm⟩
  · rw [hmethod]
    exact howner
  · rw [hmethod]

theorem Enacts.accepts_iff {x : TypeId} (h : s.Enacts classes cls id) (hs : s.Stocked taken) :
    s.accepts (some x) [] id = true ↔ cls = x := by
  have hsettled := hs.settled id h.has
  obtain ⟨definer, hprovides⟩ := h.provides
  obtain ⟨c, -, hr, -⟩ := hprovides.inherits
  obtain ⟨info, hshape, -⟩ := hr.shape
  have hconcrete : s.types.concreteTypes cls = [cls] := by
    simp [concreteTypes, addConcrete, addNew, hshape]
  have hincludes : s.types.includes cls x = true ↔ cls = x := by
    rw [includes, hconcrete]
    simpa using fun heq => heq.symm
  simpa [accepts, hsettled.selfType, h.owner, hsettled.args] using hincludes

/-- An object of a class that the receiver can have is dispatched to the instance of its `coco`. -/
theorem Dispatches.exists_target (h : s.Dispatches classes call type (s.call call).resolved)
    (hs : s.Stocked taken) (hcls : cls ∈ s.types.concreteTypes type) :
    ∃ id ∈ (s.call call).resolved, s.dispatch call (some cls) [] = some id ∧
      s.Enacts classes cls id := by
  obtain ⟨id, hid, henacts⟩ := h.staffs.staffed cls hcls
  have hsome : (s.dispatch call (some cls) []).isSome = true :=
    List.find?_isSome.2 ⟨id, hid, (henacts.accepts_iff hs).2 rfl⟩
  obtain ⟨found, hfound⟩ := Option.isSome_iff_exists.1 hsome
  have hmem : found ∈ (s.call call).resolved := List.mem_of_find?_eq_some hfound
  obtain ⟨cls', -, henacts'⟩ := h.staffs.served found hmem
  obtain rfl := (henacts'.accepts_iff hs).1 (List.find?_some hfound)
  exact ⟨found, hmem, hfound, henacts'⟩

namespace Sent

variable (h : s.Sent classes nodes vars call a follower type)
include h

theorem dispatchTable_eq : s.dispatchTable call = (s.types.concreteTypes type).map fun cls =>
      ⟨some cls, [], s.dispatch call (some cls) []⟩ := by
  obtain ⟨receiver, hreceiver, htype, -⟩ := h.poses.receiver
  have hargs : (s.call call).argNodes = [] := by rw [CallSite.argNodes, h.poses.bare.args]; rfl
  have hreceivers : s.receivers (s.call call) = (s.types.concreteTypes type).map some := by
    simp [receivers, hreceiver, htype]
  simp only [dispatchTable, hargs, hreceivers, List.mapM_nil, Option.pure_def,
    concreteTuples, List.map_cons, List.map_nil]
  rw [List.flatMap_map]
  exact List.flatMap_pure_eq_map _ _

theorem rootCalls_eq : s.rootCalls "coco" = [call] := by
  have hmem : ∀ id, id ∈ s.callIds ↔ s.HasCall id := by
    rintro ⟨i⟩
    simp [callIds, HasCall]
  have hnodup : s.callIds.Nodup := List.nodup_range.map fun i j heq => congrArg CallId.index heq
  have hfilter : s.rootCalls "coco" = s.callIds.filter (· == call) := by
    refine List.filter_congr fun id hid => ?_
    by_cases heq : id = call
    · simp [heq, h.poses.name, h.scope]
    · simp [heq, (h.news id ((hmem id).1 hid) heq).1]
  rw [hfilter, List.filter_beq, List.count_eq_one_of_mem hnodup ((hmem call).2 h.poses.has)]
  rfl

/-- No argument was converted. -/
theorem not_isConversion : ¬ s.IsConversion call := by
  rintro ⟨source, other, -, hother, conversion, -, -, hout⟩
  have hargs : (s.call other).args = [] := by
    by_cases heq : other = call
    · rw [heq, h.poses.bare.args]
    · exact (h.news other hother heq).2
  simp [hargs] at hout

/-- The call has the union of the types of its results. -/
theorem joins_results {options : InferenceOptions} (hchecked : Checked options s)
    (hne : s.flow.inputTypes (s.call call).node ≠ []) :
    ∃ u, s.Joins (s.call call).node u ∧ s.typeOf (s.call call).node = some u := by
  rcases hchecked.callsTyped call h.poses.has h.not_isConversion (Set.notMem_empty _) with
    hjoined | ⟨-, hargs⟩
  · exact hjoined h.poses.feeds.wired.rule hne
  · exact absurd h.poses.bare.args hargs

theorem mem_inputTypes_iff {value : TypeId} : value ∈ s.flow.inputTypes (s.call call).node ↔
      ∃ id ∈ (s.call call).resolved, s.typeOf (s.instanceAt id).node = some value := by
  rw [FlowGraph.inputTypes, h.poses.feeds.wired.inputs, List.mem_filterMap]
  constructor
  · rintro ⟨node, hnode, htype⟩
    obtain ⟨id, hid, rfl⟩ := List.mem_map.1 (FlowGraph.mem_joinNew_nil.1 hnode)
    exact ⟨id, hid, htype⟩
  · rintro ⟨id, hid, htype⟩
    exact ⟨_, FlowGraph.mem_joinNew_nil.2 (List.mem_map_of_mem hid), htype⟩

/-- The call has the union of the types of the literals that the nearest definitions return. -/
theorem typeOf_call {options : InferenceOptions} {target : TypeId → InstanceId}
    {defined : TypeId → Definition}
    (hdispatches : s.Dispatches classes call type (s.call call).resolved)
    (hforest : IsForest classes) (hchecked : Checked options s)
    (htarget : ∀ cls ∈ s.types.concreteTypes type, target cls ∈ (s.call call).resolved ∧
      s.RunsNearest classes cls (target cls) (defined cls) ∧
      s.typeOf (s.instanceAt (target cls)).node = some (defined cls).result.type) :
    s.typeOf (s.call call).node = some (unionOf
      ((s.types.concreteTypes type).map fun cls => (defined cls).result.type) s.types).1 := by
  let literals := (s.types.concreteTypes type).map fun cls => (defined cls).result.type
  have hmem : ∀ value, value ∈ s.flow.inputTypes (s.call call).node ↔ value ∈ literals := by
    intro value
    rw [h.mem_inputTypes_iff, List.mem_map]
    constructor
    · rintro ⟨id, hid, htype⟩
      obtain ⟨cls, hcls, henacts⟩ := hdispatches.staffs.served id hid
      obtain ⟨d, hnearest, hliteral⟩ := henacts.runsNearest h.stocked
      obtain rfl := hnearest.unique (htarget cls hcls).2.1 hforest h.planted
      exact ⟨cls, hcls, Option.some.inj (hliteral.symm.trans htype)⟩
    · rintro ⟨cls, hcls, rfl⟩
      exact ⟨target cls, (htarget cls hcls).1, (htarget cls hcls).2.2⟩
  have hne : s.flow.inputTypes (s.call call).node ≠ [] := by
    obtain ⟨cls, hcls⟩ := h.spans.exists_concrete h.planted.regular.founded
    exact List.ne_nil_of_mem ((hmem _).2 (List.mem_map.2 ⟨cls, hcls, rfl⟩))
  obtain ⟨u, hjoins, htype⟩ := h.joins_results hchecked hne
  have hknown : ∀ literal ∈ literals, s.types.Known literal := fun literal hliteral =>
    hjoins.known literal ((hmem literal).2 hliteral)
  have hwidens := unionOf_widens literals s.types
  have hregular := h.planted.regular.unionOf hknown
  have hoverClasses := hwidens.overClasses h.planted.overClasses
  have hunion := h.planted.regular.unionOf_isJoin hknown (.refl _) hregular hoverClasses
  have hu : (unionOf literals s.types).2.IsJoin
      (s.flow.inputTypes (s.call call).node) u := by
    have hgrows : (unionOf (s.flow.inputTypes (s.call call).node) s.types).2.Grows
        (unionOf literals s.types).2 := by
      rw [hjoins.union]
      exact hwidens.grows
    have hjoin := h.planted.regular.unionOf_isJoin hjoins.known hgrows hregular hoverClasses
    rwa [hjoins.union] at hjoin
  rw [htype, hu.unique hunion hregular hoverClasses hmem]

end Sent

end Session

namespace ForestProgram

/-- A program over a forest of classes is checked without failure.  The dispatch table of its call
of `coco` has one row for each concrete type of the receiver, which runs on objects of that type the
definition of the nearest class on the chain of superclasses that has one, and the variable that
the call is assigned to has the union of the types of the literals that these definitions return. -/
theorem check_dispatches (p : ForestProgram) :
    let s := ((Session.start default).check p.program).2
    ((Session.start default).check p.program).1.isOk = true ∧
      ∃ (call : CallId) (type : TypeId) (target : TypeId → InstanceId)
        (defined : TypeId → Definition),
        s.rootCalls "coco" = [call] ∧ s.rootVarType? "a" = some type ∧
        (s.types.concreteTypes type).Nodup ∧
        s.dispatchTable call
          = (s.types.concreteTypes type).map (fun cls => ⟨some cls, [], some (target cls)⟩) ∧
        (∀ cls ∈ s.types.concreteTypes type,
          s.RunsNearest p.classes cls (target cls) (defined cls)) ∧
        s.rootVarType? "x" = some (TypeTable.unionOf
          ((s.types.concreteTypes type).map fun cls => (defined cls).result.type) s.types).1 := by
  intro s
  obtain ⟨result, s', hrun, nodes, call, a, x, type, hsent, hdispatches⟩ := p.checkWith_runs
  have hcheck : (Session.start default).check p.program = (.ok result, s') := by
    rw [Session.check, hrun]
  have hok : ((Session.start default).check p.program).1.isOk = true := by rw [hcheck]; rfl
  have hs : s = s' := congrArg Prod.snd hcheck
  have hchecked : Session.Checked default s := .check .start hok
  rw [hs] at hchecked ⊢
  have hforest : IsForest p.classes :=
    IsForest.append (by simpa using IsForest.nil.append p.early_declarable) p.late_declarable
  have hexists : ∀ cls, ∃ id d, cls ∈ s'.types.concreteTypes type →
      id ∈ (s'.call call).resolved ∧ s'.dispatch call (some cls) [] = some id ∧
      s'.RunsNearest p.classes cls id d ∧
      s'.typeOf (s'.instanceAt id).node = some d.result.type := by
    intro cls
    by_cases hcls : cls ∈ s'.types.concreteTypes type
    · obtain ⟨id, hid, hdispatch, henacts⟩ := hdispatches.exists_target hsent.stocked hcls
      obtain ⟨d, hnearest, hliteral⟩ := henacts.runsNearest hsent.stocked
      exact ⟨id, d, fun _ => ⟨hid, hdispatch, hnearest, hliteral⟩⟩
    · exact ⟨default, ⟨.nil, .absent, .absent, .absent⟩, fun hmem => absurd hmem hcls⟩
  choose target defined htarget using hexists
  have hvars : s'.rootVars = (NameMap.empty.insert "a" a).insert "x" x := by
    rw [Session.rootVars, hsent.root]
  refine ⟨hok, call, type, target, defined, hsent.rootCalls_eq, ?_,
    s'.types.concreteTypes_nodup type, ?_, fun cls hcls => (htarget cls hcls).2.2.1, ?_⟩
  · rw [Session.rootVarType?, hvars]
    exact hsent.typed
  · rw [hsent.dispatchTable_eq]
    refine List.map_congr_left fun cls hcls => ?_
    rw [(htarget cls hcls).2.1]
  · rw [Session.rootVarType?, hvars, NameMap.get?_insert_self]
    have hcalled : s'.typeOf (s'.call call).node = _ :=
      hsent.typeOf_call hdispatches hforest hchecked fun cls hcls =>
        ⟨(htarget cls hcls).1, (htarget cls hcls).2.2⟩
    exact (hsent.poses.feeds.same x rfl).trans hcalled

/-- `coco` is called on an object of `A` or `B < A`, before `C < B` overrides it. -/
def overriddenLater : ForestProgram where
  early :=
    [ ⟨"A", none, some ⟨.int 1, .absent, .absent, .absent⟩, .absent⟩,
      ⟨"B", some "A", none, .absent⟩ ]
  creations := [⟨"A", .absent, .absent, .absent⟩, ⟨"B", .absent, .absent, .absent⟩]
  sending := ⟨.absent, .absent, .absent⟩
  late := [⟨"C", some "B", some ⟨.str "c", .absent, .absent, .absent⟩, .absent⟩]
  source := none
  early_declarable := by decide +kernel
  late_declarable := by decide +kernel
  creations_ne_nil := by simp
  created_early := by simp

/-- The call has one row for each class of the receiver, with the one that is declared later: the
first two run the definition of `A`, and the third that of `C`. -/
theorem check_dispatches_overriddenLater :
    let s := ((Session.start default).check overriddenLater.program).2
    s.rootCalls "coco" = [⟨2⟩] ∧ (s.rootVarType? "a").map s.types.name = some "A+" ∧
      s.dispatchTable ⟨2⟩ =
        [⟨some ⟨14⟩, [], some ⟨2⟩⟩, ⟨some ⟨16⟩, [], some ⟨3⟩⟩, ⟨some ⟨19⟩, [], some ⟨4⟩⟩] ∧
      [⟨14⟩, ⟨16⟩, ⟨19⟩].map s.types.name = ["A", "B", "C"] ∧
      [⟨2⟩, ⟨3⟩, ⟨4⟩].map (fun id => (s.types.method (s.instanceAt id).method).owner)
        = [⟨14⟩, ⟨14⟩, ⟨19⟩] ∧
      (s.rootVarType? "x").map s.types.name = some "Int32 | String" ∧
      ∀ row ∈ s.dispatchTable ⟨2⟩, ∃ cls id d, row = ⟨some cls, [], some id⟩ ∧
        s.RunsNearest overriddenLater.classes cls id d := by
  intro s
  -- all but the last fact are read off the session, and the last one follows from them
  simp only [← and_assoc]
  refine (and_iff_left_of_imp fun hfacts row hrow => ?_).2 (by decide +kernel)
  obtain ⟨⟨⟨⟨⟨hcalls, -⟩, -⟩, -⟩, -⟩, -⟩ := hfacts
  obtain ⟨-, call, type, target, defined, hcall, -, -, hrows, hnearest, -⟩ :=
    check_dispatches overriddenLater
  obtain rfl : call = ⟨2⟩ := by simpa using hcall.symm.trans hcalls
  rw [hrows] at hrow
  obtain ⟨cls, hcls, rfl⟩ := List.mem_map.1 hrow
  exact ⟨cls, target cls, defined cls, rfl, hnearest cls hcls⟩

end ForestProgram

end Callsite
