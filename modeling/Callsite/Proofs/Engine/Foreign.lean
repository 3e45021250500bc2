import Callsite.Proofs.Engine.Instantiation

/-!
# Calls of foreign functions by moves

While the arguments of a call on a library are converted, the call itself may be
resolved again.  That is why it counts as open: nothing is said about its arguments
and its signature until it has a target.
-/

namespace Callsite

open TypeTable CallSite

variable {args params : List TypeId} {i index : Nat} {external : External} {site : CallSite}
  {node : NodeId} {library type : TypeId} {arg : Argument}

variable {s s' s'' : Session} {A : Agenda} {O : Set CallId} {engine : Engine} {call : CallId}

/-! ## Conversions of types -/

namespace TypeTable

variable {t t' : TypeTable} {actual expected type : TypeId} {kind : ConversionKind}

theorem Grows.shape_applied {generic : TypeId} (h : t.Grows t')
    (hshape : t.shape type = .applied generic args) : t'.shape type = .applied generic args :=
  h.shape_fixed hshape (by simp) (by simp) (by simp)

theorem Grows.shape_function {result : TypeId} (h : t.Grows t')
    (hshape : t.shape type = .function params result) :
    t'.shape type = .function params result :=
  h.shape_fixed hshape (by simp) (by simp) (by simp)

theorem pointee?_of_grows (h : t.Grows t') (hpointee : t.pointee? type = some actual) :
    t'.pointee? type = some actual := by
  unfold pointee? at hpointee
  split at hpointee
  next generic args hshape => rwa [pointee?, h.shape_applied hshape]
  next => simp at hpointee

theorem isPointer_of_grows (h : t.Grows t') (hpointer : t.isPointer type = true) :
    t'.isPointer type = true := by
  unfold isPointer at hpointer
  split at hpointer
  next generic args hshape => rwa [isPointer, h.shape_applied hshape]
  next => simp at hpointer

theorem Passes.later {isOut : Bool} (h : t.Passes isOut actual type) (hg : t.Grows t') :
    t'.Passes isOut actual type := by
  cases isOut with
  | false => exact h
  | true => exact pointee?_of_grows hg h

theorem Yields.later (h : t.Yields kind type) (hg : t.Grows t') : t'.Yields kind type := by
  cases kind with
  | nilToPointer => exact isPointer_of_grows hg h
  | stringToPointer => exact pointee?_of_grows hg h
  | functionToVoid =>
    obtain ⟨params, hshape⟩ := h
    exact ⟨params, hg.shape_function hshape⟩

/-- A conversion leads to a type of its kind. -/
theorem yields_of_conversion? (h : t.conversion? actual expected = some kind) :
    t.Yields kind expected := by
  unfold conversion? at h
  split at h
  next hnil =>
    cases h
    exact (Bool.and_eq_true_iff.1 hnil).2
  next =>
    split at h
    next hstring =>
      cases h
      exact eq_of_beq (Bool.and_eq_true_iff.1 hstring).2
    next =>
      split at h
      next hcast =>
        cases h
        unfold isVoidCast at hcast
        split at hcast
        next args _ params result hactual hexpected =>
          obtain ⟨hvoid, -⟩ := Bool.and_eq_true_iff.1 hcast
          exact ⟨params, by rw [hexpected, eq_of_beq hvoid]⟩
        next => simp at hcast
      next => simp at h

/-- A pointer is neither `nil` nor a function. -/
theorem conversion?_of_pointer (hf : t.Founded) (hshape : t.shape actual = .applied .pointer args)
    (h : t.conversion? actual expected = some kind) : kind = .stringToPointer := by
  unfold conversion? at h
  split at h
  next hnil =>
    obtain rfl : actual = .nil := eq_of_beq (Bool.and_eq_true_iff.1 hnil).1
    have hbelow := hf.below .nil (known_of_shape_ne (by simp [hshape]))
    rw [hshape] at hbelow
    exact absurd (show TypeId.pointer.index < TypeId.nil.index from hbelow) (by decide)
  next =>
    split at h
    next => exact (Option.some.inj h).symm
    next =>
      split at h
      next hcast => simp [isVoidCast, hshape] at hcast
      next => simp at h

end TypeTable

/-! ## Sessions alike -/

/-- The calls are the same, and the nodes have the types they had. -/
structure Session.Alike (s s' : Session) : Prop where
  calls : s'.calls = s.calls
  typeOf : ∀ node, s.HasNode node → s'.typeOf node = s.typeOf node

namespace Session.Alike

theorem refl (s : Session) : s.Alike s :=
  ⟨rfl, fun _ _ => rfl⟩

theorem withTypes (s : Session) (t : TypeTable) : s.Alike { s with types := t } :=
  ⟨rfl, fun _ _ => rfl⟩

theorem withNode (s : Session) (node : FlowNode) : s.Alike (s.withNode node) :=
  ⟨rfl, fun _ hnode => s.flow.typeOf_push_of_lt _ node hnode⟩

variable (h : s.Alike s')
include h

theorem trans (hb : s.Before s') (h' : s'.Alike s'') : s.Alike s'' where
  calls := h'.calls.trans h.calls
  typeOf := fun node hnode => (h'.typeOf node (hb.hasNode hnode)).trans (h.typeOf node hnode)

theorem call_eq (call : CallId) : s'.call call = s.call call := by
  rw [Session.call, Session.call, h.calls]

theorem inputTypes?_eq (hs : s.Sound) (hcall : s.HasCall call) :
    s'.inputTypes? call = s.inputTypes? call := by
  refine inputTypes?_congr (by rw [h.call_eq]) fun input hinput => ?_
  exact h.typeOf input ((hs.calls call hcall).inputs input hinput)

theorem onLibrary (hs : s.Sound) (hb : s.Before s') (hcall : s.HasCall call)
    (hlibrary : s.OnLibrary call) : s'.OnLibrary call := by
  refine hb.onLibrary hcall (fun receiver hreceiver => ?_) hlibrary
  exact h.typeOf receiver
    ((hs.calls call hcall).inputs receiver (mem_inputs.2 (Or.inr (Or.inl hreceiver))))

end Session.Alike

/-! ## Arguments of foreign functions -/

namespace Session

/-- The argument of a call at a position has a type that can be passed for a parameter. -/
def Passes (s : Session) (call : CallId) (i : Nat) (type : TypeId) : Prop :=
  ∃ arg actual, (s.call call).args[i]? = some arg ∧ s.typeOf arg.node = some actual ∧
    s.types.Passes arg.isOut actual type

/-- Some argument of a call was converted from a string. -/
def HasString (s : Session) (call : CallId) : Prop :=
  ∃ conversion ∈ (s.call call).conversions, conversion.kind = .stringToPointer

theorem HasString.later (h : s.HasString call) (hb : s.Before s') (hcall : s.HasCall call) :
    s'.HasString call := by
  obtain ⟨conversion, hmem, hkind⟩ := h
  exact ⟨conversion, (hb.call call hcall).conversions hmem, hkind⟩

theorem Passes.later (h : s.Passes call i type) (hb : s.Before s')
    (harg : (s'.call call).args[i]? = (s.call call).args[i]?)
    (htype : ∀ arg, (s.call call).args[i]? = some arg → s'.typeOf arg.node = s.typeOf arg.node) :
    s'.Passes call i type := by
  obtain ⟨arg, actual, hgiven, hactual, hpasses⟩ := h
  exact ⟨arg, actual, harg.trans hgiven, (htype arg hgiven).trans hactual, hpasses.later hb.types⟩

theorem Alike.passes (halike : s.Alike s') (hs : s.Sound) (hb : s.Before s')
    (hcall : s.HasCall call) (h : s.Passes call i type) : s'.Passes call i type := by
  refine h.later hb (by rw [halike.call_eq]) fun arg harg => halike.typeOf _ ?_
  refine (hs.calls call hcall).inputs arg.node ?_
  exact mem_inputs.2 (Or.inl ⟨arg, List.mem_of_getElem? harg, rfl⟩)

theorem call_converted (hcall : s.HasCall call) (index : Nat) (kind : ConversionKind)
    (source node : NodeId) :
    (s.converted call index kind source node).call call
      = (s.call call).converted index kind source node :=
  s.call_changeCall_self _ hcall

theorem typeOf_converted (index : Nat) (kind : ConversionKind) (source node other : NodeId) :
    (s.converted call index kind source node).typeOf other = s.typeOf other :=
  (FlowGraph.typeOf_addObserver _ _ _ _).trans (FlowGraph.typeOf_removeObserver _ _ _ _)

/-- After a conversion, what was passed for other parameters still is. -/
theorem Passes.converted (h : s.Passes call i type) (hcall : s.HasCall call) (hne : i ≠ index)
    (kind : ConversionKind) (source node : NodeId) :
    (s.converted call index kind source node).Passes call i type := by
  obtain ⟨arg, actual, hgiven, hactual, hpasses⟩ := h
  refine ⟨arg, actual, ?_, (typeOf_converted index kind source node arg.node).trans hactual,
    hpasses⟩
  rw [call_converted hcall]
  exact (List.getElem?_modify_ne _ _ (Ne.symm hne)).trans hgiven

end Session

namespace Infer

/-! ## `out` arguments -/

theorem forbidOut_leads (call : CallId) :
    Leads O (forbidOut call) s A A fun _ s' => s = s' ∧ ¬ s.HasOut call := by
  refine Leads.get_bind ?_
  cases hfind : (s.call call).args.find? (·.isOut) with
  | some arg => exact .fail _ _
  | none =>
    refine .pure ⟨rfl, ?_⟩
    rintro ⟨arg, harg, hout⟩
    exact List.find?_eq_none.1 hfind arg harg hout

theorem bindOut_of_not_isOut (h : arg.isOut = false) (function : String) (index : Nat)
    (param : TypeId) : bindOut engine function index param arg = pure () := by
  simp [bindOut, h]

theorem bindOut_leads (he : engine.Guides) (hs : s.Tended A)
    (hslot : arg.isOut = true → s.IsSlot arg.node) (function : String) (index : Nat)
    (param : TypeId) : Leads ∅ (bindOut engine function index param arg) s A A fun _ _ => True := by
  unfold bindOut
  split
  next hout =>
    refine Leads.get_bind ?_
    split
    next => exact .fail _ _
    next pointee _ =>
      refine .step rfl (.refl _) ?_
      split
      next =>
        refine (typedNode_slot_leads hs pointee arg.span).bind fun source s1 h1 hsource => ?_
        refine connect_leads he (h1.tended hs) (h1.before.isSlot (hslot hout)) ?_
        simpa using hsource.has
      next => exact .pure trivial
  next => exact .pure trivial

theorem mem_declaredArgs {args : List Argument} :
    (i, type, arg) ∈ declaredArgs external args ↔
      (external.params.map (·.2))[i]? = some type ∧ args[i]? = some arg := by
  rw [declaredArgs, List.mem_iff_getElem?]
  constructor
  · rintro ⟨j, hj⟩
    obtain ⟨pair, hpair, heq⟩ : ∃ pair, (external.params.zip args)[j]? = some pair ∧
        (j, pair.1.2, pair.2) = (i, type, arg) := by
      simpa [List.getElem?_mapIdx] using hj
    obtain ⟨rfl, rfl, rfl⟩ : j = i ∧ pair.1.2 = type ∧ pair.2 = arg := by simpa using heq
    obtain ⟨hparam, harg⟩ := List.getElem?_zip_eq_some.1 hpair
    exact ⟨by simp [hparam], harg⟩
  · rintro ⟨hparam, harg⟩
    rw [List.getElem?_map] at hparam
    obtain ⟨param, hat, rfl⟩ := Option.map_eq_some_iff.1 hparam
    have hpair : (external.params.zip args)[i]? = some (param, arg) :=
      List.getElem?_zip_eq_some.2 ⟨hat, harg⟩
    exact ⟨i, by simp [List.getElem?_mapIdx, hpair]⟩

/-! ## Plans -/

/-- What is planned for the argument of a declared parameter: nothing if it can be passed, and
otherwise a conversion. -/
structure Plans (s : Session) (t : TypeTable) (entry : Nat × TypeId × Argument)
    (plan : Option (Nat × ConversionKind × TypeId)) : Prop where
  passes :
    plan = none → ∀ type, s.typeOf entry.2.2.node = some type →
      t.Passes entry.2.2.isOut type entry.2.1
  converts :
    ∀ conversion, plan = some conversion → conversion.1 = entry.1 ∧ conversion.2.2 = entry.2.1 ∧
      (conversion.2.1 ≠ .stringToPointer →
        entry.2.2.isOut = false ∧ t.Yields conversion.2.1 conversion.2.2)

theorem Plans.later {t t' : TypeTable} {entry : Nat × TypeId × Argument}
    {plan : Option (Nat × ConversionKind × TypeId)} (h : Plans s t entry plan) (hg : t.Grows t') :
    Plans s t' entry plan where
  passes := fun hnone type htype => (h.passes hnone type htype).later hg
  converts := by
    intro conversion hsome
    obtain ⟨hindex, hexpected, hkind⟩ := h.converts conversion hsome
    exact ⟨hindex, hexpected, fun hne => ⟨(hkind hne).1, (hkind hne).2.later hg⟩⟩

theorem passedType_leads (hs : s.Tended A) (arg : Argument) (type : TypeId) :
    Leads O (passedType arg type) s A A fun actual s' => s.Alike s' ∧
      if arg.isOut then s'.types.shape actual = .applied .pointer [type] else actual = type := by
  unfold passedType
  split
  next =>
    refine (build_leads hs (pointerTo_builds hs.types type)).post ?_
    rintro _ _ _ ⟨t, rfl, -, hshape⟩
    exact ⟨.withTypes s t, hshape⟩
  next => exact .pure ⟨.refl s, rfl⟩

theorem declaredConversion_leads (hs : s.Tended A) (function : String) (index : Nat)
    (expected : TypeId) (arg : Argument) :
    Leads O (declaredConversion function index expected arg) s A A fun plan s' =>
      s.Alike s' ∧ Plans s s'.types (index, expected, arg) plan := by
  refine .step rfl (.refl _) ?_
  split
  next hnone =>
    refine .pure ⟨.refl s, fun _ type htype => ?_, by simp⟩
    exact absurd (hnone.symm.trans htype) (by simp)
  next type htype =>
    refine (passedType_leads hs arg type).next hs fun actual s1 h1 hs1 ⟨halike, hactual⟩ => ?_
    split
    next heq =>
      refine .pure ⟨halike, fun _ other hother => ?_, by simp⟩
      obtain rfl := Option.some.inj (htype.symm.trans hother)
      unfold Passes
      split at hactual
      next hout =>
        rw [if_pos hout, ← heq]
        simp [pointee?, hactual]
      next hout => rw [if_neg hout, ← heq, hactual]
    next =>
      refine Leads.get_bind ?_
      dsimp only
      split
      next kind hkind =>
        refine .pure ⟨halike, by simp, ?_⟩
        rintro _ ⟨⟩
        refine ⟨rfl, rfl, fun hne => ⟨?_, yields_of_conversion? hkind⟩⟩
        by_contra hout
        rw [if_pos (by simpa using hout)] at hactual
        exact hne (conversion?_of_pointer hs1.types hactual hkind)
      next => exact .fail _ _

theorem declaredConversions_leads {entries : List (Nat × TypeId × Argument)} (hs : s.Tended A)
    (hnodes : ∀ entry ∈ entries, s.HasNode entry.2.2.node) (function : String) :
    Leads O (entries.mapM fun (i, expected, arg) => declaredConversion function i expected arg)
      s A A fun plans s' => s.Alike s' ∧
        (∀ entry ∈ entries, ∃ plan ∈ plans, Plans s s'.types entry plan) ∧
        ∀ plan ∈ plans, ∃ entry ∈ entries, Plans s s'.types entry plan := by
  refine Leads.mapM entries (fun _ _ _ _ _ h hplan => hplan.later h.before.types) (.refl s)
    fun entry hentry s1 h1 halike1 => ?_
  refine (declaredConversion_leads (h1.tended hs) function entry.1 entry.2.1 entry.2.2).post
    fun plan s2 _ ⟨halike2, hplan⟩ => ⟨?_, halike1.trans h1.before halike2⟩
  -- Planning changes the type of no node.
  refine ⟨fun hnone type htype => hplan.passes hnone type ?_, hplan.converts⟩
  rw [halike1.typeOf _ (hnodes entry hentry), htype]

theorem variadicConversions_leads (hs : s.Tended A) (external : External) (args : List Argument) :
    Leads O (variadicConversions external args) s A A fun conversions s' => s.Alike s' ∧
      ∀ conversion ∈ conversions,
        conversion.1 < args.length ∧ conversion.2.1 = .stringToPointer := by
  unfold variadicConversions
  split
  · refine (build_leads hs (pointerTo_builds hs.types .char)).bind ?_
    rintro charPointer _ _ ⟨t, rfl, -⟩
    refine .get_bind (.pure ⟨.withTypes s t, fun conversion hmem => ?_⟩)
    obtain ⟨entry, hentry, hsome⟩ := List.mem_filterMap.1 hmem
    obtain ⟨i, hi, rfl⟩ := List.mem_mapIdx.1 hentry
    simp only [Option.ite_none_right_eq_some, Option.some.injEq] at hsome
    exact hsome.2 ▸ ⟨hi, rfl⟩
  · exact .pure ⟨.refl s, by simp⟩

/-! ## Conversions -/

/-- The node of a new call has no use yet. -/
theorem gives_withCall {observed : List NodeId} (hs : s.Sound) (h : site.Enters s A observed)
    (span : Span) : s.Gives (s.withCall site span observed) ⟨s.flow.size⟩ := by
  have hnew : ¬ s.HasNode ⟨s.flow.size⟩ := Nat.lt_irrefl _
  refine hs.gives hnew ?_ (fun call huses => ?_) rfl
  · rw [Session.HasNode, Session.Sound.size_withCall]
    exact Nat.lt_succ_self _
  · rw [Session.call_withCall] at huses
    split at huses
    next =>
      rcases huses with hinput | ⟨conversion, hconversion, -⟩ | hbody
      · exact absurd (h.inputs _ hinput) hnew
      · exact absurd (h.conversions ▸ hconversion) List.not_mem_nil
      · obtain ⟨block, hblock, hvisit⟩ := Option.bind_eq_some_iff.1 hbody
        rw [(h.block block hblock).2] at hvisit
        simp [Visit.node?] at hvisit
    next => exact huses

/-- A new call is added and resolved as far as its inputs allow. -/
theorem newCall_leads {x : Infer NodeId} {span : Span} {observed : List NodeId}
    (he : engine.Guides) (hs : s.Tended A) (h : site.Enters s A observed)
    (hrun : x s = (do engine.recalculate ⟨s.calls.size⟩; pure ⟨s.flow.size⟩ : Infer NodeId)
      (s.withCall site span observed)) :
    Leads ∅ x s A A fun node s' =>
      (s.Gives s' node ∧ node = ⟨s.flow.size⟩) ∧ s'.HasCall ⟨s.calls.size⟩ ∧
        site.Before (s'.call ⟨s.calls.size⟩) := by
  have hmove : Move ∅ (s, A) (s.withCall site span observed, A.withCall ⟨s.calls.size⟩) :=
    .call site span observed h
  have hgives := gives_withCall hs.toSound h span
  have hs1 := hmove.tended hs
  have hcall : (s.withCall site span observed).HasCall ⟨s.calls.size⟩ := by
    simp [Session.hasCall_withCall]
  have hsite : (s.withCall site span observed).call ⟨s.calls.size⟩ = site := by
    rw [Session.call_withCall, if_pos rfl]
  have hlocked : Leads ∅ (engine.recalculate ⟨s.calls.size⟩) (s.withCall site span observed)
      (A.withCall ⟨s.calls.size⟩) A fun _ s' =>
        Lock.Holds s' (.node ⟨s.flow.size⟩) ∧ True :=
    .holding _ hs1 hgives.loose (by simp) fun hs1 =>
      (he.recalculate _ hs1 hcall).wait hs1
        ((A.withLock (.node ⟨s.flow.size⟩)).dropCall_withCall_le ⟨s.calls.size⟩)
  refine .of_run hrun (.of_move hs hmove) (hlocked.bind fun _ s2 h2 ⟨hloose, _⟩ => ?_)
  refine .pure ⟨⟨⟨hgives.new, hloose⟩, rfl⟩, h2.before.hasCall hcall, ?_⟩
  have hbefore := h2.before.call _ hcall
  rwa [hsite] at hbefore

theorem convertString_leads {scope : ScopeId} (he : engine.Guides) (hs : s.Tended A)
    (huses : (s.call call).Uses arg.node) (hscope : scope.index < s.scopes.size) :
    Leads ∅ (convertString engine scope arg) s A A fun node s' =>
      s.Gives s' node ∧ ∀ maker, s'.HasCall maker → (s'.call maker).node = node →
        (s'.call maker).receiver = some arg.node := by
  let site := fresh ⟨s.flow.size⟩ "cstr" (some arg.node) scope arg.span
  have harg := hs.hasNode_of_uses huses
  have hinputs : ∀ input ∈ site.inputs, input = arg.node := by
    intro input hinput
    rcases mem_inputs.1 hinput with ⟨_, hnil, -⟩ | hreceiver | hblockArg
    · cases hnil
    · exact (Option.some.inj hreceiver).symm
    · simp [site, fresh] at hblockArg
  have henters : site.Enters s A [arg.node] := by
    refine ⟨rfl, rfl, rfl, ⟨rfl, rfl⟩, rfl, ?_, ?_, ?_, ?_, ?_, hscope, ?_, ?_⟩
    · exact fun input hinput => hinputs input hinput ▸ harg
    · exact fun input hinput => hinputs input hinput ▸ hs.not_locked_of_uses huses
    · exact fun input hinput => List.mem_singleton.2 (hinputs input hinput)
    · exact fun other hother => absurd hother List.not_mem_nil
    · exact fun i other hother => absurd hother (by simp [site, fresh])
    · exact fun hblockArg => absurd rfl hblockArg
    · exact fun block hsome => absurd hsome (by simp [site, fresh])
  refine (newCall_leads he hs henters rfl).post fun node s2 h2 hentered => ?_
  obtain ⟨⟨hgives, hnode⟩, hcall, hsite⟩ := hentered
  refine ⟨hgives, fun maker hmaker heq => ?_⟩
  have hs2 := h2.tended hs
  have hsame : (s2.call ⟨s.calls.size⟩).node = node := hsite.node.trans hnode.symm
  obtain rfl := hs2.node_inj maker _ hmaker hcall (heq.trans hsame.symm)
  exact hsite.receiver

/-- The converted form of an argument takes its place. -/
theorem replaceArg_leads {kind : ConversionKind} {source : NodeId} (hs : s.Tended A)
    (hmove : Move O (s, A) (s.converted call index kind source node, A)) :
    Leads O (replaceArg call index kind source node) s A A
      fun _ s' => s' = s.converted call index kind source node :=
  .ok rfl (.of_move hs hmove) rfl

/-- A conversion that is planned for an argument of a call. -/
structure Planned (s : Session) (call : CallId) (params : List TypeId)
    (conversion : Nat × ConversionKind × TypeId) : Prop where
  given : conversion.1 < (s.call call).args.length
  fixed :
    conversion.2.1 ≠ .stringToPointer →
      ((s.call call).args.map (·.isOut))[conversion.1]? = some false ∧
        s.types.Yields conversion.2.1 conversion.2.2 ∧
        params[conversion.1]? = some conversion.2.2

theorem Planned.later {conversion : Nat × ConversionKind × TypeId}
    (h : Planned s call params conversion) (hb : s.Before s') (hcall : s.HasCall call) :
    Planned s' call params conversion where
  given := by
    rw [hb.args_length hcall]
    exact h.given
  fixed := by
    intro hkind
    obtain ⟨hout, hyields, hparam⟩ := h.fixed hkind
    exact ⟨by rwa [(hb.call call hcall).isOut], hyields.later hb.types, hparam⟩

/-- All inputs of a call have types and every parameter can be passed its argument, after the
conversions that are planned and unless an argument was a string. -/
def Ready (s : Session) (call : CallId) (params : List TypeId)
    (conversions : List (Nat × ConversionKind × TypeId)) : Prop :=
  s.HasString call ∨ s.inputTypes? call ≠ none ∧ ∀ i type, params[i]? = some type →
    s.Passes call i type ∨ ∃ kind, (i, kind, type) ∈ conversions

/-- Each parameter has an argument with a type. -/
theorem exists_typed_argument (harity : external.params.length ≤ (s.call call).args.length)
    (htyped : s.inputTypes? call ≠ none) (hparam : (external.params.map (·.2))[i]? = some type) :
    ∃ arg actual, (s.call call).args[i]? = some arg ∧ s.typeOf arg.node = some actual := by
  have hlt : i < (s.call call).args.length := by
    have hi := (List.getElem?_eq_some_iff.1 hparam).1
    rw [List.length_map] at hi
    exact hi.trans_le harity
  have hmem : ((s.call call).args[i]).node ∈ (s.call call).inputs :=
    mem_inputs.2 (Or.inl ⟨_, List.getElem_mem hlt, rfl⟩)
  obtain ⟨actual, hactual⟩ :=
    Option.ne_none_iff_exists'.1 (Session.inputTypes?_ne_none_iff.1 htyped _ hmem)
  exact ⟨_, actual, List.getElem?_eq_getElem hlt, hactual⟩

section Convert

variable {index : Nat} {kind : ConversionKind} {expected : TypeId} {arg : Argument}

variable (hs : s.Tended A) (hcall : s.HasCall call) (hreceiver : (s.call call).receiver ≠ none)
  (hopen : call ∈ O) (hconverting : call ∈ A.converting)
include hs hcall hreceiver hopen hconverting

/-- A new node may take the place of an argument that is given at one position only. -/
theorem convert_move {node : NodeId} (huses : (s.call call).Uses arg.node)
    (h : Episode O (s, A) (s', A)) (hgives : s.Gives s' node)
    (hmade : ∀ maker, s'.HasCall maker → (s'.call maker).node = node →
      (s'.call maker).receiver = some arg.node)
    (hapart : ((s.call call).args.map (·.isOut))[index]? = some true ∨
      (s'.call call).Apart index arg.node) (hfixed : kind ≠ .stringToPointer →
      ((s.call call).args.map (·.isOut))[index]? = some false ∧
        ∃ type, (s'.flow.get node).rule = .pinned type ∧ s'.types.Yields kind type) :
    Move O (s', A) (s'.converted call index kind arg.node node, A) := by
  have hlater := h.before.call call hcall
  refine .convert index kind hopen (h.before.hasCall hcall) ?_ hgives.has hmade hconverting
    hgives.loose (hs.not_locked hgives.new) (hs.not_locked_source hgives.new)
    (hs.not_locked_of_uses huses) (h.before.hasNode (hs.hasNode_of_uses huses)) ?_ ?_
  · rwa [hlater.receiver]
  · rwa [hlater.isOut]
  · rwa [hlater.isOut]

/-- A conversion to a fixed type: the argument can be passed then. -/
theorem convertFixed_leads (harg : (s.call call).args[index]? = some arg)
    (hout : ((s.call call).args.map (·.isOut))[index]? = some false)
    (hyields : s.types.Yields kind expected) : Leads O (do
      let node ← typedNode expected arg.span
      replaceArg call index kind arg.node node) s A A fun _ s' =>
      (s'.call call).conversions ≠ [] ∧
        (s.inputTypes? call ≠ none → s'.inputTypes? call ≠ none) ∧
        (∀ i type, i ≠ index → s.Passes call i type → s'.Passes call i type) ∧
        s'.Passes call index expected := by
  have huses : (s.call call).Uses arg.node :=
    Or.inl (mem_inputs.2 (Or.inl ⟨arg, List.mem_of_getElem? harg, rfl⟩))
  have hisOut : arg.isOut = false := by simpa [harg] using hout
  refine (typedNode_leads hs expected arg.span).bind fun node s1 h1 ⟨hnode, heq⟩ => ?_
  subst hnode heq
  generalize hfresh :
    (⟨some expected, [], [], .pinned expected, false, arg.span⟩ : FlowNode) = fresh at h1 ⊢
  have hget : (s.withNode fresh).flow.get ⟨s.flow.size⟩ = fresh := by
    rw [Session.withFlow_flow, FlowGraph.get_push, if_pos rfl]
  have htype : (s.withNode fresh).typeOf ⟨s.flow.size⟩ = some expected :=
    (congrArg FlowNode.type hget).trans (by rw [← hfresh])
  have hrule : ((s.withNode fresh).flow.get ⟨s.flow.size⟩).rule = .pinned expected := by
    rw [hget, ← hfresh]
  have hmove : Move O (s.withNode fresh, A)
      ((s.withNode fresh).converted call index kind arg.node ⟨s.flow.size⟩, A) :=
    convert_move hs hcall hreceiver hopen hconverting huses h1 (gives_withNode hs.toSound fresh)
      (fun maker hmaker hnode => absurd hnode (node_ne_new hs.toSound hmaker))
      (Or.inr (hs.apart call hcall index arg harg hisOut))
      fun _ => ⟨hout, expected, hrule, hyields⟩
  refine (replaceArg_leads (h1.tended hs) hmove).post fun _ s2 _ heq => ?_
  subst heq
  have hsite := Session.call_converted (h1.before.hasCall hcall) index kind arg.node ⟨s.flow.size⟩
  refine ⟨by simp [hsite], fun htyped => ?_, fun i type hne hpasses => ?_, ?_⟩
  · rw [Session.inputTypes?_ne_none_iff] at htyped ⊢
    intro input hinput
    rw [Session.typeOf_converted]
    rw [hsite, mem_inputs] at hinput
    rcases hinput with ⟨other, hother, rfl⟩ | hrest
    · rcases Session.Sound.mem_modify_node hother with hgiven | ⟨heq, -⟩
      · exact h1.before.flow.typed _ (htyped _ (mem_inputs.2 (Or.inl ⟨other, hgiven, rfl⟩)))
      · rw [heq, htype]
        exact Option.some_ne_none _
    · exact h1.before.flow.typed _ (htyped _ (mem_inputs.2 (Or.inr hrest)))
  · refine (hpasses.later h1.before rfl fun other hother => ?_).converted
      (h1.before.hasCall hcall) hne kind _ _
    refine s.flow.typeOf_push_of_lt _ fresh ((hs.calls call hcall).inputs other.node ?_)
    exact mem_inputs.2 (Or.inl ⟨other, List.mem_of_getElem? hother, rfl⟩)
  · refine ⟨{ arg with node := ⟨s.flow.size⟩ }, expected, ?_,
      (Session.typeOf_converted _ _ _ _ _).trans htype, ?_⟩
    · have hgiven : ((s.withNode fresh).call call).args[index]? = some arg := harg
      simp [hsite, hgiven]
    · simp [Passes, hisOut]

variable (he : engine.Guides)
include he

/-- One argument of an open call is converted, if there is one at the position. -/
theorem convert_leads
    (hfixed : kind ≠ .stringToPointer →
      ((s.call call).args.map (·.isOut))[index]? = some false ∧ s.types.Yields kind expected) :
    Leads O (convert engine call index kind expected) s A A fun _ s' =>
      ((s'.call call).conversions ≠ [] ∨ s' = s) ∧
      (index < (s.call call).args.length → s'.HasString call ∨ kind ≠ .stringToPointer ∧
        (s.inputTypes? call ≠ none → s'.inputTypes? call ≠ none) ∧
        (∀ i type, i ≠ index → s.Passes call i type → s'.Passes call i type) ∧
          s'.Passes call index expected) := by
  refine Leads.get_bind ?_
  dsimp only
  split
  next arg harg =>
    have huses : (s.call call).Uses arg.node :=
      Or.inl (mem_inputs.2 (Or.inl ⟨arg, List.mem_of_getElem? harg, rfl⟩))
    cases kind with
    | stringToPointer =>
      have hscope := (hs.calls call hcall).written
      have hstring : Leads ∅ (convertString engine (s.call call).scope arg) s A A
          fun node s' => (s.Gives s' node ∧ ∀ maker, s'.HasCall maker →
            (s'.call maker).node = node → (s'.call maker).receiver = some arg.node) ∧
          (((s.call call).args.map (·.isOut))[index]? = some true ∨
            (s'.call call).Apart index arg.node) := by
        cases hout : arg.isOut with
        | true =>
          refine (convertString_leads he hs huses hscope).post fun _ _ _ h => ⟨h, Or.inl ?_⟩
          simp [harg, hout]
        | false =>
          have hapart := hs.apart call hcall index arg harg hout
          refine (Leads.holding (.source call index arg.node) hs
            ⟨hcall, hs.hasNode_of_uses huses, hapart⟩ (by simp) fun hs' =>
              convertString_leads he hs' huses hscope).post ?_
          rintro _ s1 - ⟨⟨-, -, hapart⟩, h⟩
          exact ⟨h, Or.inr hapart⟩
      refine (hstring.mono (Set.empty_subset O)).bind fun node s1 h1 ⟨⟨hgives, hmade⟩, hapart⟩ => ?_
      have hmove := convert_move hs hcall hreceiver hopen hconverting huses h1 hgives hmade
        hapart fun hne => absurd rfl hne
      refine (replaceArg_leads (h1.tended hs) hmove).post fun _ s2 _ heq => ?_
      subst heq
      have hsite := Session.call_converted (h1.before.hasCall hcall) index .stringToPointer
        arg.node node
      refine ⟨Or.inl (by simp [hsite]), fun _ => Or.inl ?_⟩
      exact ⟨⟨index, .stringToPointer, arg.node⟩, by simp [hsite], rfl⟩
    | nilToPointer | functionToVoid =>
      obtain ⟨hout, hyields⟩ := hfixed (by simp)
      exact (convertFixed_leads hs hcall hreceiver hopen hconverting harg hout hyields).post
        fun _ _ _ ⟨hne, hpasses⟩ => ⟨Or.inl hne, fun _ => Or.inr ⟨by simp, hpasses⟩⟩
  next hnone =>
    refine .pure ⟨Or.inr rfl, fun hlt => ?_⟩
    simp [hlt] at hnone

theorem convertAll_leads {conversions : List (Nat × ConversionKind × TypeId)}
    (hplanned : ∀ conversion ∈ conversions, Planned s call params conversion)
    (hready : Ready s call params conversions) :
    Leads O (conversions.forM fun (i, kind, expected) => convert engine call i kind expected) s A A
      fun _ s' => ((s'.call call).conversions ≠ [] ∨ s' = s) ∧ Ready s' call params [] := by
  induction conversions generalizing s with
  | nil => exact .pure ⟨Or.inr rfl, hready⟩
  | cons first rest ih =>
    obtain ⟨index, kind, expected⟩ := first
    have hfirst := hplanned _ List.mem_cons_self
    refine (convert_leads hs hcall hreceiver hopen hconverting he fun hkind =>
      ⟨(hfirst.fixed hkind).1, (hfirst.fixed hkind).2.1⟩).bind
        fun _ s1 h1 ⟨hchanged, hpasses⟩ => ?_
    have hcall1 := h1.before.hasCall hcall
    have hreceiver1 : (s1.call call).receiver ≠ none := by
      rwa [(h1.before.call call hcall).receiver]
    have hready1 : Ready s1 call params rest := by
      rcases hready with hstring | ⟨htyped, hready⟩
      · exact Or.inl (hstring.later h1.before hcall)
      rcases hpasses hfirst.given with hstring | ⟨hkind, hinputs, hothers, hgiven⟩
      · exact Or.inl hstring
      refine Or.inr ⟨hinputs htyped, fun i type hparam => ?_⟩
      obtain ⟨-, -, hexpected⟩ := hfirst.fixed hkind
      by_cases hindex : i = index
      · subst hindex
        obtain rfl := Option.some.inj (hparam.symm.trans hexpected)
        exact Or.inl hgiven
      · refine (hready i type hparam).imp (hothers i type hindex) fun ⟨other, hmem⟩ => ⟨other, ?_⟩
        exact (List.mem_cons.1 hmem).resolve_left fun heq => hindex (congrArg Prod.fst heq)
    refine (ih (h1.tended hs) hcall1 hreceiver1 (fun conversion hmem =>
      (hplanned conversion (List.mem_cons_of_mem _ hmem)).later h1.before hcall) hready1).post
        fun _ s2 h2 hrest => ⟨?_, hrest.2⟩
    rcases hchanged with hsome | rfl
    · exact Or.inl fun hnil => hsome (List.eq_nil_of_subset_nil
        (hnil ▸ (h2.before.call call hcall1).conversions))
    · exact hrest.1

theorem convertArgs_leads (harity : external.params.length ≤ (s.call call).args.length)
    (htyped : s.inputTypes? call ≠ none) (function : String) :
    Leads O (convertArgs engine call external function) s A A fun _ s' =>
      ((s'.call call).conversions ≠ [] ∨ s.Alike s') ∧
        Ready s' call (external.params.map (·.2)) [] := by
  have hnodes : ∀ entry ∈ declaredArgs external (s.call call).args, s.HasNode entry.2.2.node := by
    intro entry hentry
    have harg := List.mem_of_getElem? (mem_declaredArgs.1 hentry).2
    exact (hs.calls call hcall).inputs _ (mem_inputs.2 (Or.inl ⟨entry.2.2, harg, rfl⟩))
  refine (declaredConversions_leads hs hnodes function).next hs
    fun declared s1 h1 hs1 ⟨halike1, hleft, hright⟩ => ?_
  refine (variadicConversions_leads hs1 external _).bind
    fun variadic s2 h2 ⟨halike2, hvariadic⟩ => ?_
  have hb2 := h1.before.trans h2.before
  have halike := halike1.trans h1.before halike2
  have hsame := halike.call_eq call
  refine (convertAll_leads (h2.tended hs1) (hb2.hasCall hcall) (by rwa [hsame]) hopen
    hconverting he ?_ (Or.inr ⟨?_, ?_⟩)).post
      fun _ s3 _ hconverted => hconverted.imp_left (Or.imp_right ?_)
  · intro conversion hmem
    rcases List.mem_append.1 hmem with hmem | hmem
    · obtain ⟨plan, hplan, hsome⟩ := List.mem_filterMap.1 hmem
      obtain ⟨⟨i, type, arg⟩, hentry, hplans⟩ := hright plan hplan
      obtain ⟨hparam, harg⟩ := mem_declaredArgs.1 hentry
      obtain ⟨hi, htype, hfixed⟩ := hplans.converts conversion hsome
      obtain ⟨index, kind, expected⟩ := conversion
      obtain ⟨rfl, rfl⟩ : index = i ∧ expected = type := ⟨hi, htype⟩
      refine ⟨?_, fun hkind => ⟨?_, (hfixed hkind).2.later h2.before.types, hparam⟩⟩
      · rw [hsame]
        exact (List.getElem?_eq_some_iff.1 harg).1
      · simpa [hsame, harg] using (hfixed hkind).1
    · obtain ⟨hlt, hkind⟩ := hvariadic conversion hmem
      exact ⟨by rwa [hsame], fun hne => absurd hkind hne⟩
  · rwa [halike.inputTypes?_eq hs.toSound hcall]
  · intro i type hparam
    obtain ⟨arg, actual, harg, hactual⟩ := exists_typed_argument harity htyped hparam
    have hentry := mem_declaredArgs.2 ⟨hparam, harg⟩
    obtain ⟨plan, hplan, hplans⟩ := hleft _ hentry
    cases plan with
    | none =>
      have hpasses : s1.Passes call i type := by
        refine ⟨arg, actual, ?_, ?_, hplans.passes rfl actual hactual⟩
        · rw [halike1.call_eq, harg]
        · rw [halike1.typeOf _ (hnodes _ hentry), hactual]
      exact Or.inl (halike2.passes hs1.toSound h2.before (h1.before.hasCall hcall) hpasses)
    | some conversion =>
      obtain ⟨hi, htype, -⟩ := hplans.converts conversion rfl
      refine Or.inr ⟨conversion.2.1, List.mem_append_left _ (List.mem_filterMap.2 ⟨_, hplan, ?_⟩)⟩
      obtain ⟨index, kind, expected⟩ := conversion
      obtain ⟨rfl, rfl⟩ : index = i ∧ expected = type := ⟨hi, htype⟩
      rfl
  · rintro rfl
    exact halike

end Convert

/-! ## Resolution -/

theorem typedNodes_leads (hs : s.Tended A) (types : List TypeId) (span : Span) :
    Leads O (types.mapM (typedNode · span)) s A A fun nodes s' =>
      (∀ node ∈ nodes, s'.IsSlot node) ∧ s'.cache = s.cache ∧ s'.instances = s.instances ∧
        s.Alike s' := by
  refine Leads.mapM_slots types ⟨rfl, rfl, .refl s⟩
    fun type _ s1 h1 ⟨hcache, hinstances, halike⟩ => ?_
  have hs1 := h1.tended hs
  refine (typedNode_leads hs1 type span).post fun node s2 _ ⟨hnode, hs2⟩ => ?_
  subst hnode hs2
  exact ⟨isSlot_withNode hs1.toSound _, hcache, hinstances, halike.trans h1.before (.withNode s1 _)⟩

theorem foreignInstance_leads (hs : s.Tended A) (hoffers : s.types.Offers external)
    (library : TypeId) :
    Leads O (foreignInstance library external) s A A fun id s' =>
      s'.HasInstance id ∧ s.Alike s' ∧ .inst id ∉ A.locks ∧
        (s'.instanceAt id).method = external.method := by
  let request : Request := ⟨external.method, library, none, external.params.map (·.2), none⟩
  have harity : s.HasArity request := by
    refine ⟨hoffers.known, fun _ => ?_, fun _ hsuper => absurd hsuper (by simp [request])⟩
    rw [hoffers.length_eq]
    exact (List.length_map _).le
  refine (askCache_leads hs request.key).next hs
    fun cached s1 h1 hs1 ⟨hcached, hits, misses, hcounted⟩ => ?_
  have hfind : s1.cache.find? request.key = cached := by
    rw [hcached, hcounted]
    rfl
  have halike1 : s.Alike s1 := by
    rw [hcounted]
    exact ⟨rfl, fun _ _ => rfl⟩
  cases cached with
  | some id =>
    obtain ⟨maker, hkey, hserves, _⟩ := hs1.cache _ _ hfind
    refine .pure ⟨hserves.has, halike1, fun hlock => ?_, ?_⟩
    · exact (hs1.locks _ hlock).2.1 _ hfind
    · exact hserves.method.trans (congrArg InstanceKey.method hkey)
  | none =>
    refine Leads.get_bind ?_
    refine (typedNode_leads hs1 external.result _).next hs1 fun node s2 h2 hs2 ⟨hnode, heq2⟩ => ?_
    have hslot : s2.IsSlot node := by
      subst hnode heq2
      exact isSlot_withNode hs1.toSound _
    have halike2 : s.Alike s2 := by
      rw [heq2]
      exact halike1.trans h1.before (.withNode s1 _)
    refine (typedNodes_leads hs2 _ _).next hs2
      fun params s3 h3 hs3 ⟨hparams, hcache, hinstances, halike3⟩ => ?_
    have halike := halike2.trans (h1.trans h2).before halike3
    let made : Instance := ⟨external.method, library, library, request.args, params, node, none,
      .foreign, none, .empty⟩
    have hunlocked : .inst ⟨s3.instances.size⟩ ∉ A.locks := fun hlock =>
      Nat.lt_irrefl _ (hs3.locks _ hlock).1
    refine .move hs3 (.make made ⟨h3.before.isSlot hslot, hparams, by simp [made], ?_⟩) rfl
      fun hs4 hb4 => ?_
    · exact fun scope hscope => absurd hscope (by simp)
    have hb : s.Before _ := (((h1.trans h2).trans h3).before).trans hb4
    have hlocked : Lock.inst ⟨s3.instances.size⟩ ∈
        (A.withLock (.inst ⟨s3.instances.size⟩)).locks := Set.mem_insert _ _
    have hserves : (s3.withInstance made).Serves request ⟨s3.instances.size⟩ := by
      obtain ⟨hid, hmade⟩ := made_later (.refl (s3.withInstance made))
      exact ⟨hid, hmade.method, hmade.owner, hmade.selfType, hmade.args⟩
    have hsame : s3.cache = s1.cache := by rw [hcache, heq2]; rfl
    have henter : Move O (s3.withInstance made, A.withLock (.inst ⟨s3.instances.size⟩))
        ({ s3.withInstance made with
            cache := (s3.withInstance made).cache.insert request.key ⟨s3.instances.size⟩ },
          (A.withLock (.inst ⟨s3.instances.size⟩)).dropLock (.inst ⟨s3.instances.size⟩)) :=
      .enter request _ hserves (hb.hasArity harity)
        (fun _ => (congrArg (·.find? request.key) hsame).trans hfind) hlocked
        (hs4.locks _ hlocked).2.1 fun type htype => absurd htype (by simp [request])
    have hentered := (Episode.of_move hs4 henter).wait hs4 (Agenda.dropLock_withLock_le hunlocked)
    refine .step rfl hentered (.pure ⟨hentered.before.hasInstance hserves.has, ?_, hunlocked, ?_⟩)
    · exact ⟨halike.calls, halike.typeOf⟩
    · exact (hentered.before.inst _ hserves.has).method.trans hserves.method

/-- After its arguments were converted, a call fits a foreign function. -/
theorem fitsForeign_of_signed {s1 s3 : Session} (hs : s.Sound) (hcall : s.HasCall call)
    (hb1 : s.Before s1) (hs1 : s1.Sound) (htyped : s.inputTypes? call ≠ none)
    (hforeign : s.HasOut call ∨ s.OnLibrary call)
    (hconverted : (s1.call call).conversions ≠ [] ∨ s.Alike s1)
    (hb3 : (s1.changeCall call ({ · with signature := s1.inputTypes? call })).Before s3)
    (halike : (s1.changeCall call ({ · with signature := s1.inputTypes? call })).Alike s3) :
    s3.FitsForeign call ∧ (s3.call call).signature = s3.inputTypes? call ∧
      s3.inputTypes? call = s1.inputTypes? call := by
  let signed := s1.changeCall call ({ · with signature := s1.inputTypes? call })
  have hcall1 := hb1.hasCall hcall
  have hb2 : s1.Before signed :=
    .changeCall call ⟨rfl, rfl, rfl, rfl, rfl, rfl, fun _ => id, fun _ => rfl⟩
  have hsite : signed.call call = { s1.call call with signature := s1.inputTypes? call } :=
    s1.call_changeCall_self _ hcall1
  have htypes2 : signed.inputTypes? call = s1.inputTypes? call :=
    Session.inputTypes?_congr (by rw [hsite]; rfl) fun _ _ => rfl
  have hs2 : signed.Sound :=
    hs1.changeStatus hb2 (fun _ => ⟨rfl, rfl, rfl, rfl, rfl⟩) fun _ => ⟨rfl, rfl, rfl, rfl⟩
  have htypes3 := halike.inputTypes?_eq hs2 (hb2.hasCall hcall1)
  have hsigned : (s3.call call).signature = s3.inputTypes? call := by
    rw [halike.call_eq, htypes3, htypes2, hsite]
  refine ⟨?_, hsigned, htypes3.trans htypes2⟩
  rcases hconverted with hne | halike1
  · exact Or.inl ((hb2.trans hb3).conversions_ne hcall1 hne)
  have htypes1 := halike1.inputTypes?_eq hs hcall
  refine Or.inr ⟨by rwa [htypes3, htypes2, htypes1], hforeign.imp ?_ fun hlibrary => ⟨?_, hsigned⟩⟩
  · exact ((hb1.trans (hb2.trans hb3)).hasOut_iff hcall).2
  · have hlibrary2 : signed.OnLibrary call :=
      hb2.onLibrary hcall1 (fun _ _ => rfl) (halike1.onLibrary hs hb1 hcall hlibrary)
    exact halike.onLibrary hs2 hb3 (hb2.hasCall hcall1) hlibrary2

/-- A foreign function takes the arguments that can be passed for its parameters. -/
theorem takes_of_passes {target : InstanceId} {signature : List TypeId}
    (hoffers : s.types.Offers external) (htarget : s.HasInstance target)
    (hmethod : (s.instanceAt target).method = external.method)
    (hsignature : s.inputTypes? call = some signature)
    (hpasses : ∀ i type, (external.params.map (·.2))[i]? = some type → s.Passes call i type) :
    s.Takes call signature target := by
  refine ⟨htarget, hmethod ▸ hoffers.known, fun i param hparam => ?_⟩
  rw [Session.methodOf, hmethod, hoffers.params, List.getElem?_map] at hparam
  obtain ⟨declared, hdeclared, rfl⟩ := Option.map_eq_some_iff.1 hparam
  obtain ⟨arg, actual, harg, hactual, hpassed⟩ := hpasses i declared.2 (by simp [hdeclared])
  exact ⟨declared.2, arg, actual, rfl, harg, (Session.typeOf_arg hsignature harg).trans hactual,
    hpassed⟩

/-- The call is open until it has its target. -/
theorem resolveConverted_leads (he : engine.Guides) (hs : s.Tended (A.withConverting call))
    (hcall : s.HasCall call) (hreceiver : (s.call call).receiver ≠ none)
    (hoffers : s.types.Offers external)
    (harity : external.params.length ≤ (s.call call).args.length)
    (htyped : s.inputTypes? call ≠ none) (hforeign : s.HasOut call ∨ s.OnLibrary call)
    (library : TypeId) (function : String) :
    Leads ∅ (resolveConverted engine call library external function) s (A.withConverting call) A
      fun _ s' => (s'.call call).targets ≠ none := by
  refine Leads.close call ?_ fun _ _ => id
  have hopen : call ∈ insert call (∅ : Set CallId) := Set.mem_insert _ _
  have hconverting : call ∈ (A.withConverting call).converting := Set.mem_insert _ _
  refine (convertArgs_leads hs hcall hreceiver hopen hconverting he harity htyped function).next hs
    fun _ s1 h1 hs1 ⟨hconverted, hready⟩ => ?_
  have hcall1 := h1.before.hasCall hcall
  refine .move hs1 (.sign hopen hconverting) rfl fun hs2 hb2 => ?_
  have hb := h1.before.trans hb2
  have hcall2 := hb2.hasCall hcall1
  refine (foreignInstance_leads hs2 (hb.offers hoffers) library).next hs2
    fun target s3 h3 hs3 ⟨htarget, halike, hfree, hmethod⟩ => .get_bind ?_
  have hb3 := hb.trans h3.before
  have hcall3 := hb3.hasCall hcall
  have hoffers3 := hb3.offers hoffers
  obtain ⟨hfits, hsigned, hsame⟩ := fitsForeign_of_signed hs.toSound hcall h1.before hs1.toSound
    htyped hforeign hconverted h3.before halike
  have hmove : Move (insert call ∅) (s3, A.withConverting call)
      ((s3.detached call).resolvedTo call [target],
        ((A.withConverting call).dropConverting call).withNode (s3.call call).node) := by
    refine .resolveForeign hcall3 htarget hfits hsigned hfree ?_ fun hplain => ?_
    · rw [Session.methodOf, hmethod]
      exact hoffers3.blockParam
    · obtain ⟨htyped1, hpasses1⟩ := hready.resolve_left fun hstring => by
        obtain ⟨conversion, hmem, hkind⟩ := hstring.later (hb2.trans h3.before) hcall1
        exact hplain conversion hmem hkind
      obtain ⟨signature, hsignature⟩ := Option.ne_none_iff_exists'.1 (hsame ▸ htyped1)
      refine ⟨signature, hsigned.trans hsignature,
        takes_of_passes hoffers3 htarget hmethod hsignature fun i type hparam => ?_⟩
      have hpasses : s1.Passes call i type := (hpasses1 i type hparam).resolve_right (by simp)
      refine halike.passes hs2.toSound h3.before hcall2 (hpasses.later hb2 ?_ fun _ _ => rfl)
      rw [s1.call_changeCall_self _ hcall1]
  refine .of_run (y := update engine (s3.call call).node) rfl (.of_move hs3 hmove) ?_
  have hs4 := hmove.tended hs3
  have hresolved : (((s3.detached call).resolvedTo call [target]).call call).targets ≠ none := by
    rw [Session.targets_resolvedTo (s3.detached call) _ hcall3]
    exact Option.some_ne_none _
  refine (update_resolved_leads he hs4 (hmove.before.hasCall hcall3) hresolved).wait hs4 ?_
  exact A.dropConverting_withConverting_le call

variable (he : engine.Guides) (hs : s.Tended A) (hcall : s.HasCall call)
include he hs hcall

/-- Without `out` arguments nothing is bound. -/
theorem bindOuts_leads (external : External) (function : String) :
    Leads ∅ ((declaredArgs external (s.call call).args).forM
      fun (i, param, arg) => bindOut engine function i param arg) s A A
      fun _ s' => s.HasOut call ∨ s' = s := by
  have hgiven : ∀ entry ∈ declaredArgs external (s.call call).args,
      entry.2.2 ∈ (s.call call).args := fun entry hentry =>
    List.mem_of_getElem? (mem_declaredArgs.1 hentry).2
  by_cases hout : s.HasOut call
  · refine (Leads.forM _ fun ⟨i, param, arg⟩ hmem s1 h1 => ?_).post fun _ _ _ _ => Or.inl hout
    refine bindOut_leads he (h1.tended hs) (fun hisOut => ?_) function i param
    exact h1.before.isSlot ((hs.calls call hcall).outs arg (hgiven _ hmem) hisOut)
  · have hplain : ∀ entry ∈ declaredArgs external (s.call call).args, entry.2.2.isOut = false := by
      intro entry hmem
      by_contra hisOut
      exact hout ⟨entry.2.2, hgiven entry hmem, by simpa using hisOut⟩
    generalize declaredArgs external (s.call call).args = entries at hplain
    induction entries with
    | nil => exact .pure (Or.inr rfl)
    | cons first rest ih =>
      have hfirst : bindOut engine function first.1 first.2.1 first.2.2 = pure () :=
        bindOut_of_not_isOut (hplain first List.mem_cons_self) function first.1 first.2.1
      change Leads ∅ (bindOut engine function first.1 first.2.1 first.2.2 >>=
        fun _ => rest.forM _) s A A _
      rw [hfirst, pure_bind]
      exact ih (List.forall_mem_cons.1 hplain).2

/-- Binding `out` arguments may change the receiver, but then the call is told. -/
theorem resolveExternal_leads (hlibrary : s.OnLibrary call) (hoffers : s.types.Offers external)
    (harity : external.params.length ≤ (s.call call).args.length) (function : String) :
    Leads ∅ (resolveExternal engine call library external function) s A (A.dropCall call)
      fun _ _ => True := by
  have hdropped : s.Tended (A.dropCall call) := hs.dropCall (Or.inr (Or.inl hlibrary))
  refine ((bindOuts_leads he hs hcall external function).also
    (bindOuts_leads he hdropped hcall external function)).next hs
      fun _ s1 h1 hs1 ⟨hbound, hepisode⟩ => .get_bind ?_
  have hcall1 := h1.before.hasCall hcall
  have hcurrent : s1.IsCurrent call :=
    (hepisode.tended hdropped).current call hcall1 fun hlisted => hlisted.2 rfl
  have hdone : s1.IsSigned call →
      Leads ∅ (pure ()) s1 A (A.dropCall call) fun _ _ => True := fun hsigned =>
    .ok rfl (.of_move hs1 (.current hcurrent fun _ => hsigned)) trivial
  split
  next hnone => exact hdone (Or.inl hnone)
  next signature hsome =>
    split
    next hsame => exact hdone (Or.inr (Or.inr (hsame.trans hsome.symm)))
    next =>
      have hreceiver1 : (s1.call call).receiver ≠ none := by
        obtain ⟨receiver, -, hreceiver, -⟩ := hlibrary
        rw [(h1.before.call call hcall).receiver, hreceiver]
        exact Option.some_ne_none _
      have hforeign : s1.HasOut call ∨ s1.OnLibrary call := by
        rcases hbound with hout | rfl
        · exact Or.inl ((h1.before.hasOut_iff hcall).2 hout)
        · exact Or.inr hlibrary
      -- From here on the call has a signature only when it gets its target.
      have hwait : Episode ∅ (s1, A) (s1, A.withConverting call) :=
        .of_move hs1 (.wait (A.le_withConverting call))
      have hmove : Move ∅ (s1, A.withConverting call) (s1, (A.dropCall call).withConverting call) :=
        .current hcurrent fun hnot => absurd (Set.mem_insert _ _) hnot
      have hopened := hwait.trans (.of_move (hwait.tended hs1) hmove)
      refine .of_run rfl hopened ?_
      refine (resolveConverted_leads he (hopened.tended hs1) hcall1 hreceiver1
        (h1.before.offers hoffers) ?_ ?_ hforeign library function).post fun _ _ _ _ => trivial
      · rwa [h1.before.args_length hcall]
      · rw [hsome]
        exact Option.some_ne_none _

theorem recalculateForeign_leads {info : LibraryInfo}
    (htype : (s.call call).receiver.bind s.typeOf = some library)
    (hshape : s.types.shape library = .library info) :
    Leads ∅ (recalculateForeign engine call library info) s A (A.dropCall call)
      fun _ _ => True := by
  obtain ⟨receiver, hreceiver, htyped⟩ := Option.bind_eq_some_iff.1 htype
  have hlibrary : s.OnLibrary call := ⟨receiver, library, hreceiver, htyped, info, hshape⟩
  refine Leads.get_bind ?_
  dsimp only
  split
  next => exact .fail _ _
  next external hexternal =>
    have hoffers : s.types.Offers external := by
      refine hs.types.externals library external ?_
      rw [hshape]
      exact List.mem_of_find?_eq_some hexternal
    split
    next harity =>
      refine resolveExternal_leads he hs hcall hlibrary hoffers ?_ _
      simp only [Bool.or_eq_true, Bool.and_eq_true, decide_eq_true_eq] at harity
      omega
    next => exact .fail _ _

end Infer

end Callsite
