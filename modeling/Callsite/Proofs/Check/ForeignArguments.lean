import Callsite.Proofs.Check.Resolved

/-!
# Arguments of foreign functions

A call on a library is checked against the parameters of a foreign function once for each list of
types of its inputs.  A converted argument has been replaced by a node with a fixed type, which
the call observes from then on in place of the expression that was written.  So after a successful
check the arguments that a call passes on have the declared types.  A string is converted by a
call of `cstr`, which may run any code and have any type; calls with such an argument are left out.
-/

namespace Callsite

open Written

variable {s s' : Session} {A A' : Agenda} {O : Set CallId} {call : CallId} {id : InstanceId}

/-- No argument of a call was converted from a string. -/
def CallSite.PassesNoString (site : CallSite) : Prop :=
  ∀ conversion ∈ site.conversions, conversion.kind ≠ .stringToPointer

namespace Session

/-- The inputs of a call that has targets have types.  If it was resolved for a library, it has one
target, which takes them. -/
structure IsFed (s : Session) (call : CallId) : Prop where
  typed : (s.call call).targets ≠ none → s.inputTypes? call ≠ none
  takes :
    ∀ signature library, (s.call call).signature = some signature →
      s.resolvedType? call = some library →
      (s.types.Known library ∧ ¬ s.IsLibrary library) ∨
        ∃ id, (s.call call).targets = some [id] ∧ s.Takes call signature id

/-- All calls are fed, apart from those whose arguments are being converted. -/
def CallsFed (s : Session) (A : Agenda) : Prop :=
  ∀ call, s.HasCall call → call ∉ A.converting → (s.call call).PassesNoString → s.IsFed call

/-- The argument at a position stands for one that was converted: it has a fixed type, which the
conversion yields. -/
structure IsConverted (s : Session) (call : CallId) (index : Nat) : Prop where
  isOut : ((s.call call).args.map (·.isOut))[index]? = some false
  fixed :
    ∃ conversion ∈ (s.call call).conversions, conversion.index = index ∧
      ∃ arg type, (s.call call).args[index]? = some arg ∧
        (s.flow.get arg.node).rule = .pinned type ∧ s.types.Yields conversion.kind type

/-- All converted arguments have fixed types. -/
def CallsConverted (s : Session) : Prop :=
  ∀ call, s.HasCall call → (s.call call).PassesNoString →
    ∀ conversion ∈ (s.call call).conversions, s.IsConverted call conversion.index

/-! ## Later sessions -/

theorem Before.passesNoString (hb : s.Before s') (hcall : s.HasCall call)
    (h : (s'.call call).PassesNoString) : (s.call call).PassesNoString :=
  fun conversion hmem => h conversion ((hb.call call hcall).conversions hmem)

theorem Takes.later {signature : List TypeId} (h : s.Takes call signature id) (hb : s.Before s')
    (hargs : (s'.call call).args = (s.call call).args) : s'.Takes call signature id := by
  have hmethod : s'.methodOf id = s.methodOf id := by
    rw [methodOf, methodOf, (hb.inst id h.has).method, hb.types.method _ h.known]
  refine ⟨hb.hasInstance h.has, ?_, fun i param hparam => ?_⟩
  · rw [(hb.inst id h.has).method]
    exact h.known.trans_le hb.types.methods_le
  · rw [hmethod] at hparam
    obtain ⟨type, arg, actual, hrestriction, harg, hactual, hpasses⟩ := h.params i param hparam
    exact ⟨type, arg, actual, hrestriction, hargs ▸ harg, hactual, hpasses.later hb.types⟩

/-- A call that is given the same goes on to be fed. -/
theorem IsFed.later (h : s.IsFed call) (hb : s.Before s') (hcall : s.HasCall call)
    (hargs : (s'.call call).args = (s.call call).args)
    (htargets : (s'.call call).targets = (s.call call).targets)
    (hsignature : (s'.call call).signature = (s.call call).signature) : s'.IsFed call where
  typed := by
    intro hne
    exact hb.inputTypes?_ne_none hcall hargs (h.typed (htargets ▸ hne))
  takes := by
    intro signature library hsigned hlibrary
    rw [hb.resolvedType?_eq hcall hsignature] at hlibrary
    rcases h.takes signature library (hsignature ▸ hsigned) hlibrary with hoff | ⟨id, hid, htakes⟩
    · exact Or.inl (hb.offLibrary hoff)
    · exact Or.inr ⟨id, htargets.trans hid, htakes.later hb hargs⟩

/-- A call with a foreign function as its target is fed. -/
theorem CallsForeign.isFed (h : s.CallsForeign call id) (hplain : (s.call call).PassesNoString) :
    s.IsFed call := by
  obtain ⟨signature, hsignature, htakes⟩ := h.takes hplain
  constructor
  case typed =>
    rintro - hnone
    exact absurd (hsignature.symm.trans (h.signed.trans hnone)) (by simp)
  case takes =>
    intro other library hother _
    obtain rfl : signature = other := Option.some.inj (hsignature.symm.trans hother)
    exact Or.inr ⟨id, h.targets, htakes⟩

end Session

open Session

/-! ## Moves -/

/-- Every move keeps calls fed. -/
theorem Move.callsFed (h : Move O (s, A) (s', A')) (hc : s.CallsFed A) : s'.CallsFed A' := by
  intro call hcall hconverting hplain
  have hb := h.before
  by_cases hmem : call ∈ A.converting
  · obtain ⟨-, target, hforeign⟩ := (h.converting_or_foreign hmem).resolve_left hconverting
    exact hforeign.isFed hplain
  have hfed : s.HasCall call → s.IsFed call :=
    fun hold => hc call hold hmem (hb.passesNoString hold hplain)
  cases h.callStep hcall with
  | made _ hnone _ hunsigned =>
    constructor
    case typed => exact fun hne => absurd hnone hne
    case takes =>
      intro signature _ hsigned
      exact absurd (hunsigned.symm.trans hsigned) (by simp)
  | kept hold htargets hargs hsignature =>
    exact (hfed hold).later hb hold hargs htargets hsignature
  | forgotten hold htargets hargs hunsigned =>
    constructor
    case typed =>
      intro hne
      exact hb.inputTypes?_ne_none hold hargs ((hfed hold).typed (htargets ▸ hne))
    case takes =>
      intro signature _ hsigned
      exact absurd (hunsigned.symm.trans hsigned) (by simp)
  | reopened _ hnone hsignature _ hoff =>
    constructor
    case typed => exact fun hne => absurd hnone hne
    case takes =>
      intro signature library hsigned hlibrary
      obtain ⟨_, receiver, htypes, hreceiver, -⟩ := resolvedType?_eq_some hlibrary
      have htypeOf := resolvedType?_eq_typeOf (by simp [← hsignature, htypes]) hsignature hreceiver
      exact Or.inl (hoff receiver library hreceiver (htypeOf.symm.trans hlibrary))
  | resolved hold htargets hargs hsignature _ htyped _ _ _ _ hopen =>
    constructor
    case typed => exact fun _ => hb.inputTypes?_ne_none hold hargs htyped
    case takes =>
      intro signature library hsigned hlibrary
      rw [hb.resolvedType?_eq hold hsignature] at hlibrary
      -- A call that was resolved for a library has had a target ever since.
      rcases (hfed hold).takes signature library (hsignature ▸ hsigned) hlibrary with
        hoff | ⟨id, hid, -⟩
      · exact Or.inl (hb.offLibrary hoff)
      · exact absurd (hopen.symm.trans hid) (by simp)
  | resolvedForeign _ _ _ _ _ _ _ hforeign => exact hforeign.isFed hplain
  | converted _ _ _ _ hmem | signed _ _ _ _ _ hmem => exact absurd hmem hconverting

/-- A converted argument keeps its type as long as the call keeps its arguments. -/
theorem Session.IsConverted.later {index : Nat} (h : s.IsConverted call index) (hs : s.Sound)
    (hb : s.Before s') (hcall : s.HasCall call)
    (harg : (s'.call call).args[index]? = (s.call call).args[index]?) :
    s'.IsConverted call index := by
  obtain ⟨conversion, hmem, hindex, arg, type, hold, hpinned, hyields⟩ := h.fixed
  refine ⟨?_, conversion, (hb.call call hcall).conversions hmem, hindex, arg, type,
    harg.trans hold, ?_, hyields.later hb.types⟩
  · rw [(hb.call call hcall).isOut]
    exact h.isOut
  · have hinput : arg.node ∈ (s.call call).inputs :=
      CallSite.mem_inputs.2 (Or.inl ⟨arg, List.mem_of_getElem? hold, rfl⟩)
    rw [hb.flow.rule arg.node ((hs.calls call hcall).inputs arg.node hinput)]
    exact hpinned

/-- Every move keeps the types of converted arguments fixed. -/
theorem Move.callsConverted (h : Move O (s, A) (s', A')) (hs : s.Sound) (hc : s.CallsConverted) :
    s'.CallsConverted := by
  intro call hcall hplain conversion hmem
  have hb := h.before
  have hkept : (s'.call call).conversions = (s.call call).conversions →
      (s'.call call).args = (s.call call).args → s'.IsConverted call conversion.index := by
    intro hconversions hargs
    have hold : s.HasCall call := by
      by_contra hnot
      rw [hconversions, s.call_of_not_hasCall hnot] at hmem
      cases hmem
    refine (hc call hold (hb.passesNoString hold hplain) conversion (hconversions ▸ hmem)).later
      hs hb hold ?_
    rw [hargs]
  have hsite := h.site call
  generalize hsite' : s'.call call = site at hsite
  cases hsite with
  | made _ _ _ hconversions =>
    rw [hsite', hconversions] at hmem
    cases hmem
  | @converted source node index kind _ _ _ _ _ hnode hfixed =>
    have hlast : ⟨index, kind, source⟩ ∈ (s'.call call).conversions := by simp [hsite']
    obtain ⟨hisOut, type, hpinned, hyields⟩ := hfixed (hplain _ hlast)
    have hold : s.HasCall call := by
      by_contra hnot
      rw [s.call_of_not_hasCall hnot] at hisOut
      simp [default, CallSite.fresh] at hisOut
    by_cases heq : conversion.index = index
    · obtain ⟨old, harg, -⟩ : ∃ old, (s.call call).args[index]? = some old ∧ old.isOut = false := by
        simpa using hisOut
      rw [heq]
      refine ⟨by rw [(hb.call call hold).isOut, hisOut], _, hlast, rfl, { old with node }, type,
        by simp [hsite', harg], ?_, hyields.later hb.types⟩
      rw [hb.flow.rule node hnode]
      exact hpinned
    · have hmem0 : conversion ∈ (s.call call).conversions := by
        rw [hsite', List.mem_append, List.mem_singleton] at hmem
        exact hmem.resolve_right fun hnew => heq (by rw [hnew])
      refine (hc call hold (hb.passesNoString hold hplain) conversion hmem0).later hs hb hold ?_
      simp [hsite', Ne.symm heq]
  | _ => exact hkept (by rw [hsite']) (by rw [hsite'])

/-! ## Runs -/

namespace Session

theorem Checked.callsFed {options : InferenceOptions} (h : Checked options s) :
    s.CallsFed .empty :=
  h.keeps (P := CallsFed) (fun hmove _ => hmove.callsFed)
    fun _ hcall => absurd hcall (Nat.not_lt_zero _)

theorem Checked.callsConverted {options : InferenceOptions} (h : Checked options s) :
    s.CallsConverted :=
  h.keeps (P := fun s _ => s.CallsConverted) (fun hmove hs => hmove.callsConverted hs.toSound)
    fun _ hcall => absurd hcall (Nat.not_lt_zero _)

/-- After successful checks a call on a library that has targets has one, and for every parameter
of it an argument of the declared type, or for `out` one of the type that it points to.  A
converted argument stands in for the expression that was written, and the declared type is what a
conversion yields. -/
theorem Checked.foreign_arguments_fit
    {options : InferenceOptions} {receiver : NodeId} {library : TypeId} (h : Checked options s)
    (hcall : s.HasCall call) (hreceiver : (s.call call).receiver = some receiver)
    (htype : s.typeOf receiver = some library) (hlibrary : s.IsLibrary library)
    (hplain : (s.call call).PassesNoString) (hid : id ∈ (s.call call).resolved) :
    (s.call call).targets = some [id] ∧
      ∀ i param, (s.methodOf id).decl.params[i]? = some param →
        ∃ type arg actual, param.restriction = some (.resolved type) ∧
          (s.call call).args[i]? = some arg ∧ s.typeOf arg.node = some actual ∧
          s.types.Passes arg.isOut actual type ∧
          ((∃ conversion ∈ (s.call call).conversions, conversion.index = i) →
            ∃ conversion ∈ (s.call call).conversions, conversion.index = i ∧
              s.types.Yields conversion.kind type) := by
  have hs : s.Sound := h.tended.toSound
  have hsettled := h.callsSettled call hcall (Set.notMem_empty call)
  have hfed : s.IsFed call := h.callsFed call hcall (Set.notMem_empty call) hplain
  have hconverted := h.callsConverted call hcall hplain
  have hresolved : (s.call call).targets ≠ none := by
    intro hnone
    rw [CallSite.resolved, hnone] at hid
    cases hid
  have htyped := hfed.typed hresolved
  -- The call has been resolved for the library.
  have hsigned : (s.call call).signature = s.inputTypes? call := by
    have hplainOut : ∀ input ∈ (s.call call).inputs, ¬ (s.call call).ConvertsOut input := by
      rintro input - ⟨conversion, hmem, -, hout⟩
      exact absurd (hout.symm.trans (hconverted conversion hmem).isOut) (by simp)
    rcases hsettled.signed (Set.notMem_empty call) hplainOut with hnone | ⟨-, hoff⟩ | hsigned
    · exact absurd hnone htyped
    · exact absurd hlibrary (hoff receiver library hreceiver htype).2
    · exact hsigned
  obtain ⟨signature, hsignature⟩ := Option.ne_none_iff_exists'.1 htyped
  have hfor := (resolvedType?_eq_typeOf htyped hsigned hreceiver).trans htype
  obtain ⟨target, htargets, htakes⟩ :=
    (hfed.takes signature library (hsigned.trans hsignature) hfor).resolve_left
      fun hnot => hnot.2 hlibrary
  obtain rfl : id = target := by simpa [CallSite.resolved, htargets] using hid
  refine ⟨htargets, fun i param hparam => ?_⟩
  obtain ⟨type, arg, actual, hrestriction, harg, hactual, hpasses⟩ := htakes.params i param hparam
  have htypeOf : s.typeOf arg.node = some actual := (typeOf_arg hsignature harg).symm.trans hactual
  refine ⟨type, arg, actual, hrestriction, harg, htypeOf, hpasses, ?_⟩
  rintro ⟨conversion, hmem, rfl⟩
  have hfixed := hconverted conversion hmem
  obtain ⟨other, hother, hindex, arg', pinned, harg', hpinned, hyields⟩ := hfixed.fixed
  obtain rfl : arg = arg' := Option.some.inj (harg.symm.trans harg')
  have hnotOut : arg.isOut = false := by simpa [harg] using hfixed.isOut
  obtain rfl : actual = pinned := hs.pins.eq_of_typeOf hpinned htypeOf
  obtain rfl : actual = type := by simpa [TypeTable.Passes, hnotOut] using hpasses
  exact ⟨other, hother, hindex, hyields⟩

/-- A call `LibC.f(out y, x, 2)` with `x = nil`, before `x` is assigned an integer. -/
def nilWidened : Program :=
  let pointer : TypeExpr := .generic (.named "Pointer") [.named "Int32"]
  program
    [ libraryDecl "LibC" [("p", pointer), ("q", pointer), ("n", .named "Int32")] false,
      assign "x" (.generated .nil),
      send (path "LibC") "f" [.generated (.out "y"), var "x", int 2],
      assign "x" (int 1) ]

/-- What the call passes on has the declared types. -/
theorem Checked.foreign_arguments_fit_nilWidened :
    let s := ((Session.start default).check nilWidened).2
    (s.call ⟨0⟩).conversions.map (·.index) = [1] ∧ (s.methodOf ⟨0⟩).decl.params.length = 3 ∧
      (s.call ⟨0⟩).targets = some [⟨0⟩] ∧
      ∀ i param, (s.methodOf ⟨0⟩).decl.params[i]? = some param →
        ∃ type arg actual, param.restriction = some (.resolved type) ∧
          (s.call ⟨0⟩).args[i]? = some arg ∧ s.typeOf arg.node = some actual ∧
          s.types.Passes arg.isOut actual type ∧
          ((∃ conversion ∈ (s.call ⟨0⟩).conversions, conversion.index = i) →
            ∃ conversion ∈ (s.call ⟨0⟩).conversions, conversion.index = i ∧
              s.types.Yields conversion.kind type) := by
  intro s
  obtain ⟨hok, hconverted, hparams, hcall, hreceiver, htype, hlibrary, hplain, hid⟩ :
      ((Session.start default).check nilWidened).1.isOk = true ∧
        (s.call ⟨0⟩).conversions.map (·.index) = [1] ∧ (s.methodOf ⟨0⟩).decl.params.length = 3 ∧
        s.HasCall ⟨0⟩ ∧ (s.call ⟨0⟩).receiver = some ⟨4⟩ ∧ s.typeOf ⟨4⟩ = some ⟨14⟩ ∧
        s.types.shape ⟨14⟩ = .library ⟨"LibC",
          [⟨"f", [("p", ⟨15⟩), ("q", ⟨15⟩), ("n", .int32)], .int32, false, ⟨18⟩⟩]⟩ ∧
        (∀ conversion ∈ (s.call ⟨0⟩).conversions, conversion.kind ≠ .stringToPointer) ∧
        ⟨0⟩ ∈ (s.call ⟨0⟩).resolved := by
    decide +kernel
  have hrun : Checked default s := .check .start hok
  exact ⟨hconverted, hparams,
    hrun.foreign_arguments_fit hcall hreceiver htype ⟨_, hlibrary⟩ hplain hid⟩

/-- The variable that was written is an integer or `nil` by now, for a parameter that is a pointer
to integers. -/
theorem foreign_argument_differs_nilWidened :
    let s := ((Session.start default).check nilWidened).2
    ((s.call ⟨0⟩).conversions.map fun conversion =>
        (conversion.index, conversion.kind, (s.typeOf conversion.source).map s.types.name))
      = [(1, .nilToPointer, some "Nil | Int32")] ∧
    (s.methodOf ⟨0⟩).decl.params.map (fun param => param.restriction.map s.types.exprText)
      = [some "Pointer(Int32)", some "Pointer(Int32)", some "Int32"] := by
  decide +kernel

end Session

end Callsite
