import Callsite.Proofs.Engine.Walk
import Callsite.Proofs.Program.Written

/-!
# Results of blocks

A method may declare the result of its block.  When a call is resolved to such a method and the
body of its block has a type already, the declaration has to accept that type as a whole, the
target is kept under it in the cache, and the body is frozen.  All moves keep this, for as long
as the call has its targets, so that after a successful check the body still has the type that
its targets were made for.

Two things are not covered.  A body without a declared result is not frozen, and a body that has
no type yet, because it is being looked at, is held to one declaration only.
-/

namespace Callsite

open Written

variable {s s' : Session} {A A' : Agenda} {O : Set CallId} {call : CallId} {id : InstanceId}

namespace Session

/-- The blocks of all calls have the types that the targets of the calls were made for. -/
def CallsHeld (s : Session) : Prop :=
  ∀ call, s.HasCall call → ∀ id ∈ (s.call call).resolved, s.IsHeldTo call id

/-- What the results of blocks were declared to be has accepted the types that instances are kept
under in the cache. -/
def CacheAccepted (s : Session) : Prop :=
  ∀ key id type, s.cache.find? key = some id → key.block = some type → s.AcceptsBlock id type

/-- An instance in the cache is of a method in the table. -/
theorem Sound.method_lt {key : InstanceKey} (hs : s.Sound) (hfind : s.cache.find? key = some id) :
    s.HasInstance id ∧ (s.instanceAt id).method.index < s.types.methods.size := by
  obtain ⟨request, -, hserves, harity⟩ := hs.cache key id hfind
  exact ⟨hserves.has, hserves.method ▸ harity.known⟩

theorem AcceptsBlock.later {type : TypeId} (h : s.AcceptsBlock id type) (hb : s.Before s')
    (hid : s.HasInstance id) (hmethod : (s.instanceAt id).method.index < s.types.methods.size) :
    s'.AcceptsBlock id type := by
  intro output houtput
  rw [hb.blockResult?_eq hid hmethod] at houtput
  rw [(hb.inst id hid).owner, (hb.inst id hid).free]
  exact (h output houtput).later hb

end Session

open Session

/-! ## Moves -/

/-- A block is held to a target for as long as its call has it. -/
theorem Move.isHeldTo (h : Move O (s, A) (s', A')) (hs : s.Tended A) (hcall : s.HasCall call)
    (hid : s.HasInstance id) (hfree : .inst id ∉ A.locks)
    (hkept : call ∈ O → (s.call call).targets ≠ none) (hheld : s.IsHeldTo call id) :
    s'.IsHeldTo call id := by
  intro hplain hdeclared key type hfind hblock
  have hb := h.before
  have hplain0 := (hb.call call hcall).blockArg.symm.trans hplain
  have hfind0 := (h.cached hfind).resolve_right fun hlocked => hfree hlocked.1
  obtain ⟨-, hmethod⟩ := hs.method_lt hfind0
  rw [hb.blockResult?_eq hid hmethod] at hdeclared
  obtain ⟨body, hbody⟩ := hheld hplain0 hdeclared key type hfind0 hblock
  exact ⟨body, h.holdsBody hs.toSound hcall hkept hplain0 hbody⟩

/-- The blocks of calls are not touched when a call is resolved. -/
theorem Session.IsHeldTo.resolvedTo {resolved : CallId} (h : s.IsHeldTo call id)
    (targets : List InstanceId) : (s.resolvedTo resolved targets).IsHeldTo call id := by
  intro hplain hdeclared key type hfind hblock
  have hsame : ∀ {α : Type} (field : CallSite → α),
      (∀ site : CallSite, field { site with targets := some targets } = field site) →
      field ((s.resolvedTo resolved targets).call call) = field (s.call call) :=
    fun field hfield => s.changeCall_field resolved call field hfield
  obtain ⟨body, hbody⟩ :=
    h ((hsame CallSite.blockArg fun _ => rfl).symm.trans hplain) hdeclared key type hfind hblock
  refine ⟨body, ?_, ?_, ?_⟩
  · rw [body?, hsame CallSite.block fun _ => rfl]
    exact hbody.body
  · exact (congrArg Prod.snd (held_resolvedTo _ _ _)).trans hbody.frozen
  · exact (congrArg Prod.fst (held_resolvedTo _ _ _)).trans hbody.typeOf

/-- The targets that a call gets are such that its block is held to them. -/
theorem Move.resolved_or_held (h : Move O (s, A) (s', A')) (hid : id ∈ (s'.call call).resolved) :
    id ∈ (s.call call).resolved ∨ s'.IsHeldTo call id := by
  have hkept : (s'.call call).targets = (s.call call).targets → id ∈ (s.call call).resolved := by
    intro hsame
    rwa [CallSite.resolved, ← hsame]
  have hother : ∀ {changed : CallId} {f : CallSite → CallSite},
      (∀ site, (f site).targets = site.targets) →
      ((s.changeCall changed f).call call).targets = (s.call call).targets :=
    fun hf => s.changeCall_field _ call CallSite.targets hf
  cases h with
  | call site span observed henters =>
    rw [call_withCall] at hid
    split at hid
    · simp [CallSite.resolved, henters.targets] at hid
    · exact Or.inl hid
  | block | begin | finish | paramEdge | blockEdge | defer
  | convert | sign | forget =>
    exact Or.inl (hkept (hother fun _ => rfl))
  | @reopen _ _ changed signature _ hcall =>
    by_cases heq : changed = call
    · subst heq
      rw [s.call_reopened hcall] at hid
      cases hid
    · exact Or.inl (hkept (congrArg CallSite.targets (s.call_changeCall_of_ne _ heq)))
  | @resolve _ _ changed targets hcall _ _ _ _ _ _ _ hheld =>
    by_cases heq : changed = call
    · subst heq
      have hsite : (s.resolvedTo changed targets).call changed
          = { s.call changed with targets := some targets } := s.call_changeCall_self _ hcall
      rw [hsite] at hid
      exact Or.inr ((hheld id hid).resolvedTo targets)
    · exact Or.inl (hkept (congrArg CallSite.targets (s.call_changeCall_of_ne _ heq)))
  | @resolveForeign _ _ changed target hcall _ _ _ _ hblock =>
    by_cases heq : changed = call
    · subst heq
      have hsite : ((s.detached changed).resolvedTo changed [target]).call changed
          = { s.call changed with targets := some [target] } := s.call_changeCall_self _ hcall
      rw [hsite] at hid
      obtain rfl := List.mem_singleton.1 hid
      -- A foreign function has no block.
      have hnone : s.blockResult? id = none := by
        simp [blockResult?, Method.blockResult?, hblock]
      exact Or.inr fun _ hdeclared => absurd hnone hdeclared
    · exact Or.inl (hkept (congrArg CallSite.targets (s.call_changeCall_of_ne _ heq)))
  | _ => exact Or.inl hid

/-- Every move keeps blocks to the types that targets were made for. -/
theorem Move.callsHeld (h : Move O (s, A) (s', A')) (hs : s.Tended A) (hc : s.CallsHeld) :
    s'.CallsHeld := by
  intro call hcall id hid
  rcases h.resolved_or_held hid with hold | hheld
  · have hcall0 : s.HasCall call := by
      by_contra hnot
      rw [s.call_of_not_hasCall hnot] at hold
      cases hold
    refine h.isHeldTo hs hcall0 ((hs.calls call hcall0).targets id hold) ?_ ?_
      (hc call hcall0 id hold)
    · exact fun hlocked => (hs.locks _ hlocked).2.2 call hold
    · rintro - hnone
      rw [CallSite.resolved, hnone] at hold
      cases hold
  · exact hheld

/-- Every move keeps the declarations true to what instances are kept under. -/
theorem Move.cacheAccepted (h : Move O (s, A) (s', A')) (hs : s.Sound) (hc : s.CacheAccepted) :
    s'.CacheAccepted := by
  intro key id type hfind hblock
  have hb := h.before
  have hkept : s.cache.find? key = some id → s'.AcceptsBlock id type := by
    intro hold
    obtain ⟨hid, hmethod⟩ := hs.method_lt hold
    exact (hc key id type hold hblock).later hb hid hmethod
  cases h with
  | enter request entered _ _ _ _ _ haccepts =>
    rw [InstanceCache.find?_insert] at hfind
    split at hfind
    next hkey =>
      cases hfind
      rw [hkey] at hblock
      exact haccepts type hblock
    next => exact hkept hfind
  | _ => exact hkept hfind

/-! ## Runs -/

namespace Session

variable {options : InferenceOptions} {key : InstanceKey} {type : TypeId}

theorem Checked.callsHeld (h : Checked options s) : s.CallsHeld :=
  h.keeps (P := fun s _ => s.CallsHeld) (fun hmove hs => hmove.callsHeld hs)
    fun _ hcall => absurd hcall (Nat.not_lt_zero _)

theorem Checked.cacheAccepted (h : Checked options s) : s.CacheAccepted :=
  h.keeps (P := fun s _ => s.CacheAccepted) (fun hmove hs => hmove.cacheAccepted hs.toSound)
    fun _ _ _ hfind => absurd hfind
      (by simp [Session.start, InstanceCache.empty, InstanceCache.find?])

/-- After successful checks the body of a call's block has the type that a target is kept under in
the cache, if the target declares the result of its block. -/
theorem Checked.body_has_key_type (h : Checked options s) (hcall : s.HasCall call)
    (hwritten : (s.call call).blockArg = none) (hid : id ∈ (s.call call).resolved)
    (hdeclared : s.blockResult? id ≠ none) (hfind : s.cache.find? key = some id)
    (hblock : key.block = some type) :
    ∃ body, s.body? call = some body ∧ s.typeOf body = some type ∧
      (s.flow.get body).frozen = true := by
  obtain ⟨body, hbody⟩ := h.callsHeld call hcall id hid hwritten hdeclared key type hfind hblock
  exact ⟨body, hbody.body, hbody.typeOf, hbody.frozen⟩

/-- Two calls of a method that declares only what it gives to its block, with bodies that get
another type after the calls, and one of a method that declares the result. -/
def widened : Program :=
  program
    [ yielding "held" ⟨"b", some [], some (.named "Int32")⟩ [],
      yielding "loose" ⟨"b", some [.named "Int32"], none⟩ [int 1],
      taking none "held" (int 1),
      assign "x" (int 1), assign "z" (taking none "loose" (var "x")), assign "x" (str "a"),
      assign "y" (int 1), assign "w" (taking none "loose" (var "y")),
      assign "y" (.generated (.char 'c')) ]

theorem check_widened :
    let s := ((Session.start default).check widened).2
    ((Session.start default).check widened).1.isOk = true ∧
      (s.HasCall ⟨0⟩ ∧ (s.call ⟨0⟩).blockArg = none ∧ (s.call ⟨0⟩).resolved = [⟨0⟩] ∧
        s.blockResult? ⟨0⟩ ≠ none ∧
        s.cache.find? ⟨⟨18⟩, .program, [], some .int32⟩ = some ⟨0⟩) ∧
      (s.call ⟨1⟩).resolved = [⟨1⟩] ∧ (s.call ⟨2⟩).resolved = [⟨1⟩] ∧
        s.cache.find? ⟨⟨19⟩, .program, [], some .int32⟩ = some ⟨1⟩ ∧
        ((s.body? ⟨1⟩).bind s.typeOf).map s.types.name = some "Int32 | String" ∧
        ((s.body? ⟨2⟩).bind s.typeOf).map s.types.name = some "Int32 | Char" := by
  decide +kernel

/-- The block of the first call has the type that its target is kept under. -/
theorem Checked.body_has_key_type_widened :
    let s := ((Session.start default).check widened).2
    (s.call ⟨0⟩).resolved = [⟨0⟩] ∧ s.cache.find? ⟨⟨18⟩, .program, [], some .int32⟩ = some ⟨0⟩ ∧
      ∃ body, s.body? ⟨0⟩ = some body ∧ s.typeOf body = some .int32 ∧
        (s.flow.get body).frozen = true := by
  intro s
  obtain ⟨hok, ⟨hcall, hwritten, hresolved, hdeclared, hfind⟩, -⟩ := check_widened
  have hrun : Checked default s := .check .start hok
  exact ⟨hresolved, hfind, hrun.body_has_key_type hcall hwritten (by simp [s, hresolved]) hdeclared
    hfind rfl⟩

/-- The other two calls share a target that is kept under `Int32`, and their blocks have two other
types. -/
theorem key_type_ne_body_widened :
    let s := ((Session.start default).check widened).2
    (s.call ⟨1⟩).resolved = [⟨1⟩] ∧ (s.call ⟨2⟩).resolved = [⟨1⟩] ∧
      s.cache.find? ⟨⟨19⟩, .program, [], some .int32⟩ = some ⟨1⟩ ∧
      ((s.body? ⟨1⟩).bind s.typeOf).map s.types.name = some "Int32 | String" ∧
      ((s.body? ⟨2⟩).bind s.typeOf).map s.types.name = some "Int32 | Char" :=
  check_widened.2.2

/-- After successful checks the declared result of a target's block has accepted the type of the
body as a whole, and bound the variables that the target has, if the body had a type when the
target was made. -/
theorem Checked.declared_result_accepts {output : TypeExpr} (h : Checked options s)
    (hcall : s.HasCall call) (hwritten : (s.call call).blockArg = none)
    (hid : id ∈ (s.call call).resolved) (hdeclared : s.blockResult? id = some output)
    (hfind : s.cache.find? key = some id) (hblock : key.block = some type) :
    ∃ body, s.body? call = some body ∧ s.typeOf body = some type ∧
      s.Accepts (s.instanceAt id).owner output type (s.instanceAt id).free := by
  have hsome : s.blockResult? id ≠ none := by simp [hdeclared]
  obtain ⟨body, hbody⟩ := h.callsHeld call hcall id hid hwritten hsome key type hfind hblock
  exact ⟨body, hbody.body, hbody.typeOf, h.cacheAccepted key id type hfind hblock output hdeclared⟩

/-- A block on an object of `A`, and one on an object of `A` or `B` whose body is a call of the
method around it.  The methods of the two classes declare different results. -/
def declaredTwice : Program :=
  let foo (result : String) : Expr := yielding "foo" ⟨"b", some [], some (.named result)⟩ []
  program
    [ classDecl "A" none [foo "Int32"], classDecl "B" none [foo "Char"],
      taking (some (new "A")) "foo" (int 1),
      methodDecl "again" [] (.generated (.seq
        [ assign "x" (new "A"), assign "x" (new "B"),
          taking (some (var "x")) "foo" (ask "again" []), .generated (.char 'c') ])),
      ask "again" [] ]

theorem check_declaredTwice :
    let s := ((Session.start default).check declaredTwice).2
    ((Session.start default).check declaredTwice).1.isOk = true ∧
      (s.HasCall ⟨1⟩ ∧ (s.call ⟨1⟩).blockArg = none ∧ (s.call ⟨1⟩).resolved = [⟨1⟩] ∧
        s.blockResult? ⟨1⟩ = some (.named "Int32") ∧
        s.cache.find? ⟨⟨18⟩, ⟨14⟩, [], some .int32⟩ = some ⟨1⟩) ∧
      (s.call ⟨5⟩).resolved = [⟨4⟩, ⟨5⟩] ∧ (s.body? ⟨5⟩).bind s.typeOf = some .char ∧
        s.blockResult? ⟨4⟩ = some (.named "Int32") ∧
        (TypeTable.restrict (s.instanceAt ⟨4⟩).owner (.named "Int32") .char (s.instanceAt ⟨4⟩).free
          s.types).1.1 = none := by
  decide +kernel

/-- `A#foo` has accepted the block of the first call. -/
theorem Checked.declared_result_accepts_declaredTwice :
    let s := ((Session.start default).check declaredTwice).2
    (s.call ⟨1⟩).resolved = [⟨1⟩] ∧ s.blockResult? ⟨1⟩ = some (.named "Int32") ∧
      ∃ body, s.body? ⟨1⟩ = some body ∧ s.typeOf body = some .int32 ∧
        s.Accepts (s.instanceAt ⟨1⟩).owner (.named "Int32") .int32 (s.instanceAt ⟨1⟩).free := by
  intro s
  obtain ⟨hok, ⟨hcall, hwritten, hresolved, hdeclared, hfind⟩, -⟩ := check_declaredTwice
  have hrun : Checked default s := .check .start hok
  exact ⟨hresolved, hdeclared, hrun.declared_result_accepts hcall hwritten (by simp [s, hresolved])
    hdeclared hfind rfl⟩

/-- The block of the other call is a `Char`, which `A#foo` would not accept. -/
theorem declared_result_rejects_declaredTwice :
    let s := ((Session.start default).check declaredTwice).2
    (s.call ⟨5⟩).resolved = [⟨4⟩, ⟨5⟩] ∧ (s.body? ⟨5⟩).bind s.typeOf = some .char ∧
      s.blockResult? ⟨4⟩ = some (.named "Int32") ∧
      (TypeTable.restrict (s.instanceAt ⟨4⟩).owner (.named "Int32") .char (s.instanceAt ⟨4⟩).free
        s.types).1.1 = none :=
  check_declaredTwice.2.2

end Session

end Callsite
