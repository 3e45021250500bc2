import Callsite.Proofs.Engine.Walk
import Callsite.Proofs.Program.Written

/-!
# Coverage of hierarchies

A call on a hierarchy watches its base, and its targets reach every concrete class below, apart
from gaps: classes that were declared since then and that the call has not been told of.  A call
that is not on the agenda has been resolved for the types of its inputs.  Both are kept by all
moves, for calls none of whose arguments was converted: a conversion makes a call observe another
node, and the foreign call that waits for it overrules what was resolved in between.
-/

namespace Callsite

open Written

variable {s s' : Session} {A A' : Agenda} {O : Set CallId} {call : CallId}
  {targets : List InstanceId} {base : TypeId} {a b : Session × Agenda}

namespace Session

/-- A call has types for its inputs, and its targets cover its receiver, unless it is a call to
which this does not apply. -/
def IsCovered (s : Session) (gaps : Set (CallId × TypeId × TypeId)) (call : CallId)
    (targets : List InstanceId) : Prop :=
  (s.call call).conversions ≠ [] ∨
    s.inputTypes? call ≠ none ∧ (s.HasOut call ∨ s.Covers gaps call targets)

/-- The targets of all calls cover their receivers, apart from calls whose arguments are being
converted. -/
def CallsCovered (s : Session) (A : Agenda) : Prop :=
  ∀ call targets, s.HasCall call → call ∉ A.converting → (s.call call).targets = some targets →
    s.IsCovered A.gaps call targets

/-! ## Calls on libraries -/

theorem OnLibrary.not_mem_members {receiver : NodeId} {type member : TypeId} (h : s.OnLibrary call)
    (hreceiver : (s.call call).receiver = some receiver) (htype : s.typeOf receiver = some type)
    (hshape : s.types.shape member = .hierarchy base) : member ∉ s.types.members type := by
  obtain ⟨node, library, hnode, htypeOf, info, hlibrary⟩ := h
  obtain rfl : receiver = node := Option.some.inj (hreceiver.symm.trans hnode)
  obtain rfl : type = library := Option.some.inj (htype.symm.trans htypeOf)
  have hmembers : s.types.members type = [type] := by simp [TypeTable.members, hlibrary]
  rw [hmembers, List.mem_singleton]
  rintro rfl
  exact absurd (hlibrary.symm.trans hshape) (by simp)

/-- A library is no hierarchy, so that any targets cover it. -/
theorem FitsForeign.isCovered {gaps : Set (CallId × TypeId × TypeId)} (h : s.FitsForeign call) :
    s.IsCovered gaps call targets := by
  refine h.imp_right fun ⟨htyped, hforeign⟩ => ⟨htyped, hforeign.imp_right ?_⟩
  rintro ⟨hlibrary, hsigned⟩ type htype
  obtain ⟨-, receiver, -, hreceiver, -⟩ := resolvedType?_eq_some htype
  have htypeOf := (resolvedType?_eq_typeOf htyped hsigned hreceiver).symm.trans htype
  refine ⟨?_, fun member hmember base hshape => ?_⟩
  · obtain ⟨node, library, hnode, hlibraryType, info, hshape⟩ := hlibrary
    obtain rfl : receiver = node := Option.some.inj (hreceiver.symm.trans hnode)
    obtain rfl : type = library := Option.some.inj (htypeOf.symm.trans hlibraryType)
    exact TypeTable.known_of_shape_ne (by simp [hshape])
  · exact absurd hmember (hlibrary.not_mem_members hreceiver htypeOf hshape)

/-! ## Later sessions -/

theorem Before.inputTypes?_ne_none (hb : s.Before s') (hcall : s.HasCall call)
    (hargs : (s'.call call).args = (s.call call).args) (h : s.inputTypes? call ≠ none) :
    s'.inputTypes? call ≠ none := by
  rw [inputTypes?_ne_none_iff] at h ⊢
  rw [hb.inputs_eq hcall hargs]
  exact fun input hinput => hb.flow.typed input (h input hinput)

theorem Before.resolvedType?_eq (hb : s.Before s') (hcall : s.HasCall call)
    (hsignature : (s'.call call).signature = (s.call call).signature) :
    s'.resolvedType? call = s.resolvedType? call := by
  rw [resolvedType?, resolvedType?, hsignature, (hb.call call hcall).receiver, hb.args_length hcall]

theorem FitsForeign.later (h : s.FitsForeign call) (hb : s.Before s') (hcall : s.HasCall call)
    (hargs : (s'.call call).args = (s.call call).args)
    (hsignature : (s'.call call).signature = (s.call call).signature)
    (htypes : ∀ node, s'.typeOf node = s.typeOf node) : s'.FitsForeign call := by
  have hinputTypes := inputTypes?_congr (hb.inputs_eq hcall hargs) fun input _ => htypes input
  refine h.imp (hb.conversions_ne hcall) fun ⟨htyped, hforeign⟩ => ⟨?_, ?_⟩
  · rwa [hinputTypes]
  · refine hforeign.imp (hb.hasOut_iff hcall).2 fun ⟨hlibrary, hsigned⟩ => ⟨?_, ?_⟩
    · exact hb.onLibrary hcall (fun receiver _ => htypes receiver) hlibrary
    · rw [hsignature, hsigned, hinputTypes]

end Session

open Session

/-! ## Moves -/

section

variable (h : Move O (s, A) (s', A'))
include h

/-- Targets that span a hierarchy go on to do so as long as the call is not resolved again. -/
theorem Move.spans (hs : s.Sound) (hcall : s.HasCall call)
    (hsigned : (s'.call call).signature ≠ none) (hresolved : (s'.call call).targets ≠ none)
    (hids : ∀ id ∈ targets, s.HasInstance id) (hspans : s.Spans A.gaps call targets base) :
    s'.Spans A'.gaps call targets base where
  watched := (h.watched hspans.watched).resolve_right fun hnone => hresolved hnone.2
  reached := by
    intro cls hrealizes
    rcases h.noticed hs hspans.watched hrealizes with hold | hgap
    · exact (hspans.reached cls hold).imp (h.before.reaches hids)
        (h.gap_stays hcall hspans.watched hsigned)
    · exact Or.inr hgap

/-- Targets that cover a receiver go on to do so. -/
theorem Move.covers (hs : s.Sound) (hcall : s.HasCall call)
    (hsignature : (s'.call call).signature = (s.call call).signature)
    (htargets : (s'.call call).targets = some targets) (hids : ∀ id ∈ targets, s.HasInstance id)
    (hcovers : s.Covers A.gaps call targets) : s'.Covers A'.gaps call targets := by
  have hb := h.before
  intro type htype
  obtain ⟨signature, -, hsigned, -, -⟩ := resolvedType?_eq_some htype
  rw [hb.resolvedType?_eq hcall hsignature] at htype
  obtain ⟨hknown, hspans⟩ := hcovers type htype
  refine ⟨hb.types.known hknown, fun member hmember base hshape => ?_⟩
  rw [hb.types.members_eq hknown] at hmember
  have hmemberKnown := hs.types.known_of_mem_members hknown hmember
  have hsame := (hb.types.shape member hmemberKnown).eq_of_fixed (by simp [hshape])
    (by simp [hshape])
  exact h.spans hs hcall (by simp [hsigned]) (by simp [htargets]) hids
    (hspans member hmember base (hsame ▸ hshape))

/-- Every move keeps receivers covered. -/
theorem Move.callsCovered (hs : s.Sound) (hc : s.CallsCovered A) : s'.CallsCovered A' := by
  intro call targets hcall hoff htargets'
  have hb := h.before
  have hbefore : s.HasCall call → (s.call call).targets = some targets →
      s.IsCovered A.gaps call targets := by
    intro hold htargets
    by_cases hconverting : call ∈ A.converting
    · exact ((h.converting_or_foreign hconverting).resolve_left hoff).1.isCovered
    · exact hc call targets hold hconverting htargets
  have hids : s.HasCall call → (s.call call).targets = some targets →
      ∀ id ∈ targets, s.HasInstance id := by
    intro hold htargets
    simpa [CallSite.resolved, htargets] using (hs.calls call hold).targets
  cases h.callStep hcall with
  | made _ hnone | reopened _ hnone => exact absurd (hnone.symm.trans htargets') (by simp)
  | kept hold htargets hargs hsignature =>
    have htargets := htargets.symm.trans htargets'
    refine (hbefore hold htargets).imp (hb.conversions_ne hold) fun hcovered => ?_
    obtain ⟨htyped, hcovers⟩ := hcovered
    refine ⟨hb.inputTypes?_ne_none hold hargs htyped, hcovers.imp (hb.hasOut_iff hold).2 ?_⟩
    exact h.covers hs hold hsignature htargets' (hids hold htargets)
  | forgotten hold htargets hargs hsignature =>
    -- The call has to be resolved again, and is not resolved for any type.
    have htargets := htargets.symm.trans htargets'
    refine (hbefore hold htargets).imp (hb.conversions_ne hold) fun hcovered => ?_
    obtain ⟨htyped, hcovers⟩ := hcovered
    refine ⟨hb.inputTypes?_ne_none hold hargs htyped, Or.inr fun type htype => ?_⟩
    obtain ⟨signature, -, hsigned, -, -⟩ := resolvedType?_eq_some htype
    exact absurd (hsignature.symm.trans hsigned) (by simp)
  | @resolved ids hold htargets hargs hsignature _ htyped hinstances hcovers =>
    obtain rfl : ids = targets := Option.some.inj (htargets.symm.trans htargets')
    refine Or.inr ⟨hb.inputTypes?_ne_none hold hargs htyped, Or.inr ?_⟩
    exact h.covers hs hold hsignature htargets' hinstances hcovers
  | resolvedForeign hold _ hargs hsignature _ hfits htypes =>
    exact (hfits.later hb hold hargs hsignature htypes).isCovered
  | converted _ _ _ hconversions => exact Or.inl hconversions
  | signed _ _ _ _ _ hconverting => exact absurd hconverting hoff

end

/-! ## Runs -/

namespace Session

/-- After successful checks the targets of a call on a hierarchy reach every concrete class of it,
whenever it was declared, unless an argument of the call does not return or was converted for a
foreign function. -/
theorem Checked.targets_reach
    {options : InferenceOptions} {receiver : NodeId} {type member base cls : TypeId}
    (h : Checked options s) (hcall : s.HasCall call)
    (htargets : (s.call call).targets = some targets)
    (hreceiver : (s.call call).receiver = some receiver) (htype : s.typeOf receiver = some type)
    (hdead : ¬ s.HasDeadArg call) (hconversions : (s.call call).conversions = [])
    (hmember : member ∈ s.types.members type) (hshape : s.types.shape member = .hierarchy base)
    (hcls : cls ∈ s.types.concreteTypes member) :
    ∃ id ∈ targets, (s.instanceAt id).owner = cls := by
  have hs : s.Sound := h.tended.toSound
  have hcurrent := h.tended.current call hcall (Set.notMem_empty call)
  have hcalls : s.CallsCovered .empty :=
    h.keeps (P := CallsCovered) (fun hmove hs => hmove.callsCovered hs.toSound)
      fun _ _ hcall => absurd hcall (Nat.not_lt_zero _)
  have hcovered := hcalls call targets hcall (Set.notMem_empty call) htargets
  obtain ⟨htyped, hcovers⟩ := hcovered.resolve_left (not_not_intro hconversions)
  rcases hcurrent with hne | hlibrary | hnone | ⟨hout, hdead' | hsigned⟩
  · exact absurd hconversions hne
  · exact absurd hmember (hlibrary.not_mem_members hreceiver htype hshape)
  · exact absurd hnone htyped
  · exact absurd hdead' hdead
  · have hresolved := (resolvedType?_eq_typeOf htyped hsigned hreceiver).trans htype
    obtain ⟨-, hspans⟩ := hcovers.resolve_left hout type hresolved
    have hrealizes := (TypeTable.mem_concreteTypes_hierarchy hs.types hshape).1 hcls
    exact ((hspans member hmember base hshape).reached cls hrealizes).resolve_right
      (Set.notMem_empty _)

/-- A call on `Foo+`, before a third class of the hierarchy is declared. -/
def declaredLater : Program :=
  program
    [ classDecl "Foo" none [methodDecl "f" [] (int 1)], classDecl "Bar" (some "Foo") [],
      assign "x" (new "Foo"), assign "x" (new "Bar"), send (var "x") "f" [],
      classDecl "Baz" (some "Bar") [] ]

/-- The targets of the call reach all three classes. -/
theorem Checked.targets_reach_declaredLater :
    let s := ((Session.start default).check declaredLater).2
    s.types.concreteTypes ⟨18⟩ = [⟨14⟩, ⟨16⟩, ⟨19⟩] ∧
      ∀ cls ∈ s.types.concreteTypes ⟨18⟩, ∃ id ∈ (s.call ⟨2⟩).resolved,
        (s.instanceAt id).owner = cls := by
  intro s
  obtain ⟨hok, hcall, htargets, htyped, hdead, hconversions, hmember, hbase, hclasses⟩ :
      ((Session.start default).check declaredLater).1.isOk = true ∧
        s.HasCall ⟨2⟩ ∧ (s.call ⟨2⟩).targets = some (s.call ⟨2⟩).resolved ∧
        (s.call ⟨2⟩).receiver.bind s.typeOf = some ⟨18⟩ ∧ ¬ s.HasDeadArg ⟨2⟩ ∧
        (s.call ⟨2⟩).conversions = [] ∧ ⟨18⟩ ∈ s.types.members ⟨18⟩ ∧
        s.types.shape ⟨18⟩ = .hierarchy ⟨14⟩ ∧
        s.types.concreteTypes ⟨18⟩ = [⟨14⟩, ⟨16⟩, ⟨19⟩] := by
    decide +kernel
  have hrun : Checked default s := .check .start hok
  obtain ⟨receiver, hreceiver, htype⟩ := Option.bind_eq_some_iff.1 htyped
  exact ⟨hclasses, fun cls hcls => hrun.targets_reach hcall htargets hreceiver htype hdead
    hconversions hmember hbase hcls⟩

/-- A call `l.f("a")` on a library.  While its argument is converted, a class is declared that
makes `l` an object of `Foo+` as well. -/
def overruled : Program :=
  program
    [ libraryDecl "LibC" [("s", .named "String")] false,
      libraryDecl "LibC" [("s", .generic (.named "Pointer") [.named "Char"])] false,
      classDecl "Foo" none [methodDecl "f" [.plain "s"] (int 1)], classDecl "Bar" (some "Foo") [],
      classDecl "Base" none [methodDecl "g" [] (path "LibC")], classDecl "Sub" (some "Base") [],
      classDecl "String" none [methodDecl "cstr" [] (.generated (.seq
        [ classDecl "D" (some "Base") [methodDecl "g" [] (either (new "Foo") (new "Bar"))],
          .generated (.primitive (.named "Int32")) ]))],
      assign "x" (either (new "Base") (new "Sub")), assign "l" (send (var "x") "g" []),
      send (var "l") "f" [str "a"] ]

/-- The call ends with the foreign function as its one target, and reaches no class of `Foo+`. -/
theorem targets_not_reach_overruled :
    let s := ((Session.start default).check overruled).2
    ((Session.start default).check overruled).1.isOk = true ∧
      (s.call ⟨3⟩).receiver.bind s.typeOf = some ⟨29⟩ ∧ ⟨28⟩ ∈ s.types.members ⟨29⟩ ∧
      s.types.shape ⟨28⟩ = .hierarchy ⟨16⟩ ∧ s.types.concreteTypes ⟨28⟩ = [⟨16⟩, ⟨18⟩] ∧
      (s.call ⟨3⟩).resolved.map (fun id => (s.instanceAt id).owner) = [⟨14⟩] := by
  decide +kernel

end Session

end Callsite
