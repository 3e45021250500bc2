import Callsite.Proofs.Check.Coverage

/-!
# Calls without targets

A call whose inputs have types has been resolved for them, unless it is on the agenda.  If no
target was found, its receiver does not return, or there was nothing to find: it is called on
hierarchies without a concrete class, which it watches.  This is kept by all moves, apart from
calls whose arguments are being converted, and those that are being resolved again and have
lost their targets.
-/

namespace Callsite

open Written

variable {s s' : Session} {A A' : Agenda} {O : Set CallId} {call : CallId}

namespace Session

/-- What is the case of a call whose arguments are not being converted. -/
structure IsSettled (s : Session) (A : Agenda) (call : CallId) : Prop where
  resolved :
    call ∉ A.reopened → (s.call call).signature ≠ none ∨ (s.call call).conversions ≠ [] →
      (s.call call).targets ≠ none
  plain : (s.call call).targets = some [] → ¬ s.HasOut call
  vacates :
    (s.call call).targets = some [] → (s.call call).deferred = true ∨
      (s.call call).signature = none ∨ s.Vacates A.gaps call
  signed :
    call ∉ A.calls → (∀ input ∈ (s.call call).inputs, ¬ (s.call call).ConvertsOut input) →
      s.IsSigned call

/-- All calls are settled, apart from those whose arguments are being converted. -/
def CallsSettled (s : Session) (A : Agenda) : Prop :=
  ∀ call, s.HasCall call → call ∉ A.converting → s.IsSettled A call

/-! ## Later sessions -/

theorem OffLibrary.later (h : s.OffLibrary call) (hb : s.Before s') (hcall : s.HasCall call)
    (htypes : ∀ input ∈ (s.call call).inputs, s'.typeOf input = s.typeOf input) :
    s'.OffLibrary call := by
  intro receiver type hreceiver htype
  rw [(hb.call call hcall).receiver] at hreceiver
  rw [htypes receiver (CallSite.mem_inputs.2 (Or.inr (Or.inl hreceiver)))] at htype
  exact hb.offLibrary (h receiver type hreceiver htype)

theorem IsSigned.later (h : s.IsSigned call) (hb : s.Before s') (hcall : s.HasCall call)
    (hargs : (s'.call call).args = (s.call call).args)
    (hsignature : (s'.call call).signature = (s.call call).signature)
    (htypes : ∀ input ∈ (s.call call).inputs, s'.typeOf input = s.typeOf input) :
    s'.IsSigned call := by
  have hinputTypes := inputTypes?_congr (hb.inputs_eq hcall hargs) htypes
  rcases h with hnone | ⟨⟨arg, harg, htype⟩, hoff⟩ | hsigned
  · exact Or.inl (hinputTypes.trans hnone)
  · refine Or.inr (Or.inl ⟨⟨arg, ?_, ?_⟩, hoff.later hb hcall htypes⟩)
    · rwa [CallSite.argNodes, hargs]
    · rw [htypes arg (CallSite.mem_inputs.2 (Or.inl (List.mem_map.1 harg))), htype]
  · exact Or.inr (Or.inr (by rw [hsignature, hsigned, hinputTypes]))

theorem Before.convertsOut {input : NodeId} (hb : s.Before s') (hcall : s.HasCall call)
    (h : (s.call call).ConvertsOut input) : (s'.call call).ConvertsOut input := by
  obtain ⟨conversion, hmem, hsource, hisOut⟩ := h
  exact ⟨conversion, (hb.call call hcall).conversions hmem, hsource,
    by rwa [(hb.call call hcall).isOut]⟩

end Session

open Session

/-! ## Moves -/

section

variable (h : Move O (s, A) (s', A'))
include h

/-- Every move keeps the calls signed that are not on the agenda. -/
theorem Move.signed (hs : s.Sound) (hcall : s'.HasCall call) (hconverting : call ∉ A'.converting)
    (hsettled : s.HasCall call → call ∉ A.converting → s.IsSettled A call) (hoff : call ∉ A'.calls)
    (hplain : ∀ input ∈ (s'.call call).inputs, ¬ (s'.call call).ConvertsOut input) :
    s'.IsSigned call := by
  have hb := h.before
  by_contra hnot
  have hopen : call ∉ A.converting := by
    intro hmem
    obtain ⟨-, target, hforeign⟩ := (h.converting_or_foreign hmem).resolve_left hconverting
    exact hnot (Or.inr (Or.inr hforeign.signed))
  have hkept : s.HasCall call → (s'.call call).args = (s.call call).args →
      (s'.call call).signature = (s.call call).signature → False := by
    intro hold hargs hsignature
    have hinputs := hb.inputs_eq hold hargs
    have hplain0 : ∀ input ∈ (s.call call).inputs, ¬ (s.call call).ConvertsOut input :=
      fun input hinput hout => hplain input (hinputs ▸ hinput) (hb.convertsOut hold hout)
    have hoff0 : call ∉ A.calls := fun hlisted =>
      (h.listed_or_current hlisted).elim hoff fun hleft => hnot (hleft.2 hopen)
    -- The call observes its inputs: it would be on the agenda if one had another type.
    refine hnot (((hsettled hold hopen).signed hoff0 hplain0).later hb hold hargs hsignature ?_)
    intro input hinput
    refine (h.typeOf_or_lists hs ((hs.calls call hold).inputs input hinput)).resolve_right
      fun hlists => hoff (hlists.calls call ?_)
    exact (hs.attends call hold input hinput).resolve_right (hplain0 input hinput)
  cases h.callStep hcall with
  | made _ _ hlisted | forgotten _ _ _ _ hlisted => exact hoff hlisted
  | kept hold _ hargs hsignature | resolved hold _ hargs hsignature =>
    exact hkept hold hargs hsignature
  | reopened _ _ hsignature => exact hnot (Or.inr (Or.inr hsignature))
  | resolvedForeign _ _ _ _ _ _ _ hforeign => exact hnot (Or.inr (Or.inr hforeign.signed))
  | converted _ _ _ _ hmem | signed _ _ _ _ _ hmem => exact hconverting hmem

/-- Every move keeps the targets of calls that have been signed or have converted arguments, but
of those that are being resolved again. -/
theorem Move.stays_resolved (hconverting : call ∉ A'.converting) (hreopened : call ∉ A'.reopened)
    (hresolved : call ∉ A.reopened →
      (s.call call).signature ≠ none ∨ (s.call call).conversions ≠ [] →
      (s.call call).targets ≠ none)
    (hsigned : (s'.call call).signature ≠ none ∨ (s'.call call).conversions ≠ []) :
    (s'.call call).targets ≠ none := by
  by_cases hmem : call ∈ A.reopened
  · exact (h.reopened_or_resolved hmem).resolve_left hreopened
  have hsite := h.site call
  generalize s'.call call = site at hsite hsigned ⊢
  cases hsite with
  | made _ _ hsignature hconversions =>
    exact hsigned.elim (absurd hsignature) (absurd hconversions)
  | reopened _ hopened => exact absurd hopened hreopened
  | resolved => exact Option.some_ne_none _
  | converted _ _ _ hmem | signed _ hmem => exact absurd hmem hconverting
  | forgotten => exact hresolved hmem (Or.inr (hsigned.resolve_left (· rfl)))
  | _ => exact hresolved hmem hsigned

/-- An owner without classes goes on to have none, unless the call is told of one. -/
theorem Move.isVacant {owner : TypeId} (hs : s.Sound) (hcall : s.HasCall call)
    (hsigned : (s'.call call).signature ≠ none) (hresolved : (s'.call call).targets ≠ none)
    (hvacant : s.IsVacant A.gaps call owner) : s'.IsVacant A'.gaps call owner := by
  obtain ⟨base, hshape, hspans⟩ := hvacant
  refine ⟨base, hshape.imp h.before.types.shape_hierarchy h.before.types.shape_hierarchyMetaclass,
    h.spans hs hcall hsigned hresolved (fun _ hid => absurd hid List.not_mem_nil) hspans⟩

theorem Move.vacates (hs : s.Sound) (hcall : s.HasCall call)
    (hsignature : (s'.call call).signature = (s.call call).signature)
    (hsigned : (s'.call call).signature ≠ none) (hresolved : (s'.call call).targets ≠ none)
    (hvacates : s.Vacates A.gaps call) : s'.Vacates A'.gaps call where
  receiver := by
    intro type htype
    rw [h.before.resolvedType?_eq hcall hsignature] at htype
    obtain ⟨hknown, hvacant⟩ := hvacates.receiver type htype
    refine ⟨h.before.types.known hknown, fun member hmember => ?_⟩
    rw [h.before.types.members_eq hknown] at hmember
    exact h.isVacant hs hcall hsigned hresolved (hvacant member hmember)
  self := by
    intro hnone
    have hlater := h.before.call call hcall
    obtain ⟨owner, hvacant, howner⟩ := hvacates.self (hlater.receiver.symm.trans hnone)
    refine ⟨owner, h.isVacant hs hcall hsigned hresolved hvacant, fun hname => ?_⟩
    rw [howner (by rwa [← hlater.name]), hlater.scope,
      h.before.selfType _ (hs.calls call hcall).written]

/-- Every move keeps a call without targets deferred or vacant. -/
theorem Move.stays_empty (hs : s.Sound) (hcall : s'.HasCall call)
    (hconverting : call ∉ A'.converting)
    (hsettled : s.HasCall call → call ∉ A.converting → s.IsSettled A call)
    (hempty : (s'.call call).targets = some []) :
    ¬ s'.HasOut call ∧ ((s'.call call).deferred = true ∨ (s'.call call).signature = none ∨
      s'.Vacates A'.gaps call) := by
  have hb := h.before
  have hne : (s'.call call).targets ≠ none := by simp [hempty]
  have hopen : call ∉ A.converting := by
    intro hmem
    obtain ⟨-, target, hforeign⟩ := (h.converting_or_foreign hmem).resolve_left hconverting
    exact absurd (hempty.symm.trans hforeign.targets) (by simp)
  have hlater : s.HasCall call → (s'.call call).signature = (s.call call).signature →
      ¬ s.HasOut call → ((s.call call).deferred = true ∨ (s.call call).signature = none ∨
        s.Vacates A.gaps call) →
      ¬ s'.HasOut call ∧ ((s'.call call).deferred = true ∨ (s'.call call).signature = none ∨
        s'.Vacates A'.gaps call) := by
    intro hold hsignature hout hwhy
    refine ⟨mt (hb.hasOut_iff hold).1 hout, ?_⟩
    rcases hwhy with hdeferred | hnone | hvacates
    · exact Or.inl (h.deferred hold (fun _ => hne) hdeferred)
    · exact Or.inr (Or.inl (hsignature.trans hnone))
    · refine Or.inr (or_iff_not_imp_left.2 fun hsigned => ?_)
      exact h.vacates hs hold hsignature hsigned hne hvacates
  cases h.callStep hcall with
  | made _ hnone | reopened _ hnone => exact absurd hnone hne
  | kept hold htargets _ hsignature =>
    have hsettled0 := hsettled hold hopen
    have hempty0 := htargets.symm.trans hempty
    exact hlater hold hsignature (hsettled0.plain hempty0) (hsettled0.vacates hempty0)
  | forgotten hold htargets _ hnone =>
    have hout := (hsettled hold hopen).plain (htargets.symm.trans hempty)
    exact ⟨mt (hb.hasOut_iff hold).1 hout, Or.inr (Or.inl hnone)⟩
  | resolved hold htargets _ hsignature _ _ _ _ hout hvacates =>
    exact hlater hold hsignature hout (hvacates (Option.some.inj (htargets.symm.trans hempty)))
  | resolvedForeign _ htargets => exact absurd (htargets.symm.trans hempty) (by simp)
  | converted _ _ _ _ hmem | signed _ _ _ _ _ hmem => exact absurd hmem hconverting

/-- Every move keeps calls settled. -/
theorem Move.callsSettled (hs : s.Sound) (hc : s.CallsSettled A) : s'.CallsSettled A' := by
  intro call hcall hconverting
  have hsettled : s.HasCall call → call ∉ A.converting → s.IsSettled A call := hc call
  constructor
  case resolved =>
    intro hreopened
    by_cases hmem : call ∈ A.converting
    · obtain ⟨-, target, hforeign⟩ := (h.converting_or_foreign hmem).resolve_left hconverting
      exact fun _ => hforeign.targets ▸ Option.some_ne_none _
    refine h.stays_resolved hconverting hreopened fun hoff hsigned => ?_
    by_cases hold : s.HasCall call
    · exact (hc call hold hmem).resolved hoff hsigned
    · rw [s.call_of_not_hasCall hold] at hsigned
      exact hsigned.elim (absurd rfl) (absurd rfl)
  case plain => exact fun hempty => (h.stays_empty hs hcall hconverting hsettled hempty).1
  case vacates => exact fun hempty => (h.stays_empty hs hcall hconverting hsettled hempty).2
  case signed => exact fun hoff => h.signed hs hcall hconverting hsettled hoff

end

/-! ## Runs -/

namespace Session

theorem Checked.callsSettled {options : InferenceOptions} (h : Checked options s) :
    s.CallsSettled .empty :=
  h.keeps (P := CallsSettled) (fun hmove hs => hmove.callsSettled hs.toSound)
    fun _ hcall => absurd hcall (Nat.not_lt_zero _)

/-- A call waits for a class: it watches a hierarchy, of classes or of their metaclasses, that has
no concrete one. -/
def AwaitsClass (s : Session) (call : CallId) (owner : TypeId) : Prop :=
  ∃ base, (s.types.shape owner = .hierarchy base ∨ s.types.shape owner = .hierarchyMetaclass base) ∧
    (call, base) ∈ s.watch.pairs ∧ ∀ cls, ¬ s.types.Realizes base cls

/-- A call can reach nothing yet: it waits for a class of every member of its receiver's type, or
without receiver for one of `self`.  A call of `super` waits for one of a superclass. -/
structure IsIdle (s : Session) (call : CallId) : Prop where
  receiver :
    ∀ receiver type, (s.call call).receiver = some receiver → s.typeOf receiver = some type →
      ∀ member ∈ s.types.members type, s.AwaitsClass call member
  self :
    (s.call call).receiver = none → ∃ owner, s.AwaitsClass call owner ∧
      ((s.call call).name ≠ "super" → owner = (s.scope (s.call call).scope).selfType)

theorem IsVacant.awaitsClass {owner : TypeId} (h : s.IsVacant ∅ call owner) :
    s.AwaitsClass call owner := by
  obtain ⟨base, hshape, hwatched, hreached⟩ := h
  refine ⟨base, hshape, hwatched, fun cls hrealizes => ?_⟩
  obtain ⟨id, hid, -⟩ := (hreached cls hrealizes).resolve_right (Set.notMem_empty _)
  exact List.not_mem_nil hid

theorem Vacates.isIdle (h : s.Vacates ∅ call) (htyped : s.inputTypes? call ≠ none)
    (hsigned : (s.call call).signature = s.inputTypes? call) : s.IsIdle call where
  receiver := by
    intro receiver type hreceiver htype member hmember
    have hresolved := (resolvedType?_eq_typeOf htyped hsigned hreceiver).trans htype
    exact ((h.receiver type hresolved).2 member hmember).awaitsClass
  self := by
    intro hnone
    obtain ⟨owner, hvacant, howner⟩ := h.self hnone
    exact ⟨owner, hvacant.awaitsClass, howner⟩

/-- After successful checks a call all of whose inputs have types has targets, or is dead, or has
an argument that does not return, or can reach nothing yet. -/
theorem Checked.resolved_or_idle {options : InferenceOptions} (h : Checked options s)
    (hcall : s.HasCall call) (htyped : s.inputTypes? call ≠ none) :
    (s.call call).resolved ≠ [] ∨ (s.call call).isDead = true ∨ s.HasDeadArg call ∨
      s.IsIdle call := by
  have hsettled := h.callsSettled call hcall (Set.notMem_empty call)
  have hresolved := hsettled.resolved (Set.notMem_empty call)
  have hempty : (s.call call).targets ≠ none → (s.call call).resolved = [] →
      (s.call call).targets = some [] := by
    intro hne hnil
    obtain ⟨targets, htargets⟩ := Option.ne_none_iff_exists'.1 hne
    rw [CallSite.resolved, htargets] at hnil
    exact htargets.trans (congrArg some hnil)
  by_contra hnot
  obtain ⟨hnil, hdead, harg, hidle⟩ : (s.call call).resolved = [] ∧
      ¬ (s.call call).isDead = true ∧ ¬ s.HasDeadArg call ∧ ¬ s.IsIdle call := by
    simpa only [not_or, not_not] using hnot
  by_cases hconverts : ∃ input ∈ (s.call call).inputs, (s.call call).ConvertsOut input
  · -- Only foreign calls convert arguments, and these have a target.
    obtain ⟨input, -, conversion, hmem, -, hisOut⟩ := hconverts
    refine hsettled.plain (hempty (hresolved (Or.inr (List.ne_nil_of_mem hmem))) hnil) ?_
    obtain ⟨arg, harg, hout⟩ := List.mem_map.1 (List.mem_of_getElem? hisOut)
    exact ⟨arg, harg, hout⟩
  · have hplain : ∀ input ∈ (s.call call).inputs, ¬ (s.call call).ConvertsOut input :=
      fun input hinput hout => hconverts ⟨input, hinput, hout⟩
    rcases hsettled.signed (Set.notMem_empty call) hplain with hnone | ⟨hdeadArg, -⟩ | hsigned
    · exact htyped hnone
    · exact harg hdeadArg
    · have hsome : (s.call call).signature ≠ none := hsigned ▸ htyped
      rcases hsettled.vacates (hempty (hresolved (Or.inl hsome)) hnil) with
        hdeferred | hnone | hvacates
      · exact hdead (by simp [CallSite.isDead, hdeferred, hnil])
      · exact hsome hnone
      · exact hidle (hvacates.isIdle htyped hsigned)

/-- Calls on an object of `A+`, all of whose classes are abstract, on an expression that does not
return, and with such an argument. -/
def unreached : Program :=
  program
    [ abstractClass "A" none [methodDecl "foo" [] (int 1)],
      abstractClass "B" (some "A") [], abstractClass "C" (some "A") [],
      methodDecl "id" [.plain "a"] (var "a"), methodDecl "stop" [] never,
      assign "x" (new "B"), assign "x" (new "C"), send (var "x") "foo" [],
      send (ask "stop" []) "foo" [], ask "id" [ask "stop" []] ]

theorem check_unreached :
    let s := ((Session.start default).check unreached).2
    (((Session.start default).check unreached).1.isOk = true ∧ (s.call ⟨2⟩).name = "foo" ∧
      s.HasCall ⟨2⟩) ∧
    (s.inputTypes? ⟨2⟩ ≠ none ∧ (s.call ⟨2⟩).resolved = [] ∧ (s.call ⟨2⟩).isDead = false ∧
      ¬ s.HasDeadArg ⟨2⟩) ∧
    (s.call ⟨4⟩).isDead = true ∧ s.HasDeadArg ⟨6⟩ := by
  decide +kernel

/-- The call on `A+` can reach nothing yet. -/
theorem Checked.resolved_or_idle_unreached :
    let s := ((Session.start default).check unreached).2
    (s.call ⟨2⟩).name = "foo" ∧ s.inputTypes? ⟨2⟩ ≠ none ∧ s.IsIdle ⟨2⟩ := by
  intro s
  obtain ⟨⟨hok, hname, hcall⟩, ⟨htyped, hnil, hdead, harg⟩, -⟩ := check_unreached
  have hrun : Checked default s := .check .start hok
  have hall := hrun.resolved_or_idle hcall htyped
  exact ⟨hname, htyped,
    ((hall.resolve_left (· hnil)).resolve_left (by simp [s, hdead])).resolve_left
    harg⟩

/-- It has no target, although it is not dead and no argument of it is; the calls after it are the
one or the other. -/
theorem unresolved_unreached :
    let s := ((Session.start default).check unreached).2
    (s.inputTypes? ⟨2⟩ ≠ none ∧ (s.call ⟨2⟩).resolved = [] ∧ (s.call ⟨2⟩).isDead = false ∧
      ¬ s.HasDeadArg ⟨2⟩) ∧
    (s.call ⟨4⟩).isDead = true ∧ s.HasDeadArg ⟨6⟩ :=
  check_unreached.2

end Session

end Callsite
