import Callsite.Proofs.Engine.Walk
import Callsite.Proofs.Program.Written
import Callsite.Proofs.Types.Regular

/-!
# Types of calls

The node of a call joins the results of its targets.  As long as it is not on the agenda it has
the type of their union: a result that changes its type puts the node on the agenda, and so does
resolving the call.  The exception are calls that were given up: the node of a call with a dead
argument is set to `NoReturn`, and nothing derives its type again if the argument comes to return
after all and has the type that the call was resolved for.
-/

namespace Callsite

open FlowGraph Written

variable {s s' : Session} {A A' : Agenda} {O : Set CallId} {call : CallId}

/-! ## Inputs without repetitions -/

namespace TypeTable

theorem foldl_addNew_of_subset {found types : List TypeId} (h : types ⊆ found) :
    types.foldl addNew found = found := by
  induction types with
  | nil => rfl
  | cons type types ih =>
    have htype : addNew found type = found := by simp [addNew, h List.mem_cons_self]
    rw [List.foldl_cons, htype]
    exact ih fun other hother => h (List.mem_cons_of_mem type hother)

variable (t : TypeTable) (typeOf : NodeId → Option TypeId) (nodes : List NodeId)

theorem flatten_joinNew (more : List NodeId) :
    t.flatten ((joinNew nodes more).filterMap typeOf)
      = t.flatten ((nodes ++ more).filterMap typeOf) := by
  induction more generalizing nodes with
  | nil => rw [List.append_nil]; rfl
  | cons first rest ih =>
    have hcons : joinNew nodes (first :: rest)
        = joinNew (if first ∈ nodes then nodes else nodes ++ [first]) rest := rfl
    rw [hcons, ih]
    split
    next hmem =>
      rw [List.filterMap_append, List.filterMap_append, List.filterMap_cons]
      cases htype : typeOf first with
      | none => rfl
      | some type =>
        -- The members of the type are there already.
        have habsorbed : t.spread type ⊆
            ((nodes.filterMap typeOf).flatMap t.spread).foldl addNew [] := by
          intro member hmember
          have htypes : type ∈ nodes.filterMap typeOf :=
            List.mem_filterMap.2 ⟨first, hmem, htype⟩
          exact mem_foldl_addNew.2 (Or.inr (List.mem_flatMap.2 ⟨type, htypes, hmember⟩))
        simp only [flatten_eq, List.flatMap_append, List.flatMap_cons, List.foldl_append,
          foldl_addNew_of_subset habsorbed]
    next => rw [List.append_assoc, List.singleton_append]

theorem unionOf_joinNew : unionOf ((joinNew [] nodes).filterMap typeOf) t
      = unionOf (nodes.filterMap typeOf) t := by
  have hflat := t.flatten_joinNew typeOf [] nodes
  rw [List.nil_append] at hflat
  rw [unionOf_eq, unionOf_eq, unmerged, unmerged, hflat]

end TypeTable

/-! ## Moves -/

namespace Session

theorem IsJoined.later {node : NodeId} (h : s.IsJoined node) (hf : s.types.Founded)
    (hg : s.types.Grows s'.types) (hrule : (s'.flow.get node).rule = (s.flow.get node).rule)
    (hinputs : s'.flow.inputTypes node = s.flow.inputTypes node)
    (htype : s'.typeOf node = s.typeOf node) : s'.IsJoined node := by
  intro hrule' hne
  obtain ⟨type, hjoins, htypeOf⟩ := h (hrule ▸ hrule') (hinputs ▸ hne)
  exact ⟨type, hjoins.of_types hf hinputs hg, htype.trans htypeOf⟩

/-- The type of a call is the union of its results, or the call was given up for an argument. -/
def HasCallType (s : Session) (call : CallId) : Prop :=
  s.IsJoined (s.call call).node ∨
    s.typeOf (s.call call).node = some .noReturn ∧ (s.call call).args ≠ []

/-- All calls but those that wait have their type. -/
def CallsTyped (s : Session) (waiting : Set NodeId) : Prop :=
  ∀ call, s.HasCall call → ¬ s.IsConversion call → (s.call call).node ∉ waiting →
    s.HasCallType call

theorem HasDeadArg.args_ne (h : s.HasDeadArg call) : (s.call call).args ≠ [] := by
  obtain ⟨arg, harg, -⟩ := h
  rintro hnil
  rw [CallSite.argNodes, hnil] at harg
  exact List.not_mem_nil harg

theorem Before.args_ne (hb : s.Before s') (hcall : s.HasCall call)
    (h : (s.call call).args ≠ []) : (s'.call call).args ≠ [] := by
  have hlength := hb.args_length hcall
  rintro hnil
  rw [hnil] at hlength
  exact h (List.length_eq_zero_iff.1 hlength.symm)

theorem Sound.hasCallType_of_unresolved (hs : s.Sound) (hcall : s.HasCall call)
    (hnot : ¬ s.IsConversion call) (htargets : (s.call call).targets = none) :
    s.HasCallType call := by
  refine Or.inl fun _ hne => absurd ?_ hne
  rw [inputTypes, hs.results call hcall hnot, CallSite.resolved, htargets]
  rfl

end Session

open Session

/-- A call with the same targets depends on what it depended on. -/
theorem Move.inputTypes_eq (h : Move O (s, A) (s', A')) (hs : s.Sound) (hcall : s.HasCall call)
    (hnot : ¬ s'.IsConversion call) (htargets : (s'.call call).targets = (s.call call).targets)
    (hoff : (s.call call).node ∉ A'.nodes) :
    s'.flow.inputTypes (s.call call).node = s.flow.inputTypes (s.call call).node := by
  have hb := h.before
  have hinputs : (s'.flow.get (s.call call).node).inputs
      = (s.flow.get (s.call call).node).inputs := by
    have hlater := (h.sound hs).results call (hb.hasCall hcall) hnot
    rw [(hb.call call hcall).node, CallSite.resolved, htargets] at hlater
    rw [hlater, hs.results call hcall fun hold => hnot (hb.isConversion hcall hold)]
    exact congrArg _ (hb.resultNodes (hs.calls call hcall).targets)
  rw [inputTypes, inputTypes, hinputs]
  refine List.filterMap_congr fun input hinput => ?_
  obtain ⟨hinputNode, -, hobserver⟩ := hs.mirrored.linked _ input hinput
  rcases h.typeOf_or_lists hs hinputNode with hsame | hlists
  · exact hsame
  · exact absurd (hlists.nodes _ hobserver) hoff

/-- Every move keeps the types of calls right. -/
theorem Move.callsTyped (h : Move O (s, A) (s', A')) (hs : s.Sound) (ht : s.CallsTyped A.nodes) :
    s'.CallsTyped A'.nodes := by
  intro call hcall hnot hoff
  have hb := h.before
  have hs' := h.sound hs
  have hsame : s.HasCall call → (s'.call call).targets = (s.call call).targets →
      s'.HasCallType call := by
    intro hold htargets
    have hnode := (hb.call call hold).node
    have hsits := hs.calls call hold
    rw [hnode] at hoff
    rw [HasCallType, hnode]
    cases h.nodeStep hs hsits.node with
    | kept htype hlisted =>
      by_cases hmem : (s.call call).node ∈ A.nodes
      · exact Or.inl ((hlisted hmem).resolve_left hoff)
      have hnot' : ¬ s.IsConversion call := fun hconversion =>
        hnot (hb.isConversion hold hconversion)
      rcases ht call hold hnot' hmem with hjoined | ⟨hnoReturn, hargs⟩
      · exact Or.inl (hjoined.later hs.types hb.types (hb.flow.rule _ hsits.node)
          (h.inputTypes_eq hs hold hnot htargets hoff) htype)
      · exact Or.inr ⟨htype.trans hnoReturn, hb.args_ne hold hargs⟩
    | set htype _ _ _ hcause =>
      rcases hcause with hjoined | ⟨rfl, killed, hkilled, heq, hdead⟩
      · exact Or.inl hjoined
      · obtain rfl := hs.node_inj killed call hkilled hold heq
        exact Or.inr ⟨htype, hb.args_ne hold hdead.args_ne⟩
  cases h.callStep hcall with
  | made _ htargets | reopened _ htargets => exact hs'.hasCallType_of_unresolved hcall hnot htargets
  | kept hold htargets | forgotten hold htargets | converted _ hold htargets
  | signed _ hold htargets => exact hsame hold htargets
  | resolved _ _ _ _ hlisted | resolvedForeign _ _ _ _ hlisted => exact absurd hlisted hoff

/-! ## Runs -/

namespace Session

theorem Checked.callsTyped {options : InferenceOptions} (h : Checked options s) : s.CallsTyped ∅ :=
  h.keeps (P := fun s A => s.CallsTyped A.nodes) (fun hmove hs => hmove.callsTyped hs.toSound)
    fun _ hcall => absurd hcall (Nat.not_lt_zero _)

/-- After successful checks a call has exactly the union of the types of its targets' results, as
soon as one of them has a type.  A call with arguments may have been given up as `NoReturn`
instead; a call that converts an `out` argument may have been given more. -/
theorem Checked.call_type {options : InferenceOptions} (h : Checked options s)
    (hcall : s.HasCall call) (hconversion : ¬ s.IsConversion call)
    (htyped : ∃ id ∈ (s.call call).resolved, s.typeOf (s.instanceAt id).node ≠ none) :
    (∃ type, s.typeOf (s.call call).node = some type ∧
      TypeTable.unionOf ((s.resultNodes (s.call call).resolved).filterMap s.typeOf) s.types
        = (type, s.types)) ∨
      s.typeOf (s.call call).node = some .noReturn ∧ (s.call call).args ≠ [] := by
  have hs : s.Sound := h.tended.toSound
  refine (h.callsTyped call hcall hconversion (Set.notMem_empty _)).imp_left fun hjoined => ?_
  have hinputs : s.flow.inputTypes (s.call call).node
      = (FlowGraph.joinNew [] (s.resultNodes (s.call call).resolved)).filterMap s.typeOf := by
    rw [FlowGraph.inputTypes, hs.results call hcall hconversion]
    rfl
  have hne : s.flow.inputTypes (s.call call).node ≠ [] := by
    obtain ⟨id, hid, htype⟩ := htyped
    obtain ⟨type, htype⟩ := Option.ne_none_iff_exists'.1 htype
    have hnode : (s.instanceAt id).node ∈ s.resultNodes (s.call call).resolved :=
      List.mem_map.2 ⟨id, hid, rfl⟩
    rw [hinputs]
    refine List.ne_nil_of_mem (List.mem_filterMap.2 ⟨_, ?_, htype⟩)
    exact (FlowGraph.mem_joinNew _).2 (Or.inr hnode)
  obtain ⟨type, hjoins, htype⟩ := hjoined (hs.calls call hcall).rule hne
  have hunion := hjoins.union
  rw [hinputs, TypeTable.unionOf_joinNew] at hunion
  exact ⟨type, htype, hunion⟩

/-- A call `foo(a.coco)` whose argument returns at first, does not return in between, and returns in
the end. -/
def revived : Program :=
  let coco (name : String) (body : Expr) : Expr := classDecl name none [methodDecl "coco" [] body]
  program
    [ methodDecl "foo" [.plain "x"] (str "a"),
      coco "A" (int 1), coco "B" never, coco "C" (int 1),
      assign "a" (new "A"), ask "foo" [send (var "a") "coco" []],
      coco "A" never, assign "a" (new "B"), coco "A" (int 1), assign "a" (new "C") ]

/-- `a.coco` has three targets in the end, and the type of their union. -/
theorem Checked.call_type_revived :
    let s := ((Session.start default).check revived).2
    let results := [.int32, .noReturn, .int32]
    (s.resultNodes (s.call ⟨1⟩).resolved).filterMap s.typeOf = results ∧
      ∃ type, s.typeOf (s.call ⟨1⟩).node = some type ∧
        TypeTable.unionOf results s.types = (type, s.types) := by
  intro s results
  have hfacts : ((Session.start default).check revived).1.isOk = true ∧
      s.HasCall ⟨1⟩ ∧ ¬ s.IsConversion ⟨1⟩ ∧
      (∃ id ∈ (s.call ⟨1⟩).resolved, s.typeOf (s.instanceAt id).node ≠ none) ∧
      (s.call ⟨1⟩).args.length = 0 ∧
      (s.resultNodes (s.call ⟨1⟩).resolved).filterMap s.typeOf = results := by decide +kernel
  obtain ⟨hok, hcall, hconversion, htyped, hargs, hresults⟩ := hfacts
  have hrun : Checked default s := .check .start hok
  refine ⟨hresults, ?_⟩
  have htype := hrun.call_type hcall hconversion htyped
  rw [hresults] at htype
  exact htype.resolve_right fun hdead => hdead.2 (List.length_eq_zero_iff.1 hargs)

/-- A foreign call `p.lib.f(1, out x)` that converts the string `x`, on a library with further
arguments at first and in the end on one that fills in a parameter. -/
def filledIn : Program :=
  let lib (name found : String) : Expr := classDecl name none [methodDecl "lib" [] (path found)]
  program
    [ assign "u" (either (send (str "a") "cstr" []) (int 1)),
      libraryDecl "LibA" [("a", .named "Int32")] true,
      libraryDecl "LibB"
        [("a", .named "Int32"), ("b", .generic (.named "Pointer") [.resolved ⟨15⟩])] false,
      lib "P" "LibA", lib "Q" "LibB", assign "p" (new "P"), assign "x" (str "a"),
      send (send (var "p") "lib" []) "f" [int 1, .generated (.out "x")],
      lib "P" "LibB", assign "p" (new "Q") ]

/-- `foo(a.coco)` keeps the type `NoReturn` that it was given in between, and `x.cstr`, which
converts `x`, the type that the parameter was filled in with. -/
theorem call_type_not_union :
    let s := ((Session.start default).check revived).2
    let s' := ((Session.start default).check filledIn).2
    (((Session.start default).check revived).1.isOk = true ∧
      ((Session.start default).check filledIn).1.isOk = true) ∧
    ((s.call ⟨2⟩).argNodes.filterMap s.typeOf = [.int32] ∧
      (s.resultNodes (s.call ⟨2⟩).resolved).filterMap s.typeOf = [.string] ∧
      s.typeOf (s.call ⟨2⟩).node = some .noReturn) ∧
    (s'.resultNodes (s'.call ⟨4⟩).resolved).filterMap s'.typeOf = [⟨14⟩] ∧
      s'.typeOf (s'.call ⟨4⟩).node = some ⟨15⟩ ∧ s'.types.shape ⟨15⟩ = .union [.int32, ⟨14⟩] := by
  decide +kernel

end Session

end Callsite
