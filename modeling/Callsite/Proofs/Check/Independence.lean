import Callsite.Proofs.Program.Written
import Callsite.Proofs.View.Walk

/-!
# What a check does not depend on

Two runs of a check are compared.  Higher depth limits change nothing about a run that the lower
ones did not cut short.  Neither spans nor the source text nor the settings of diagnostics change
what is inferred; they show in the spans, the trace and the help of a failure only.
-/

namespace Callsite

open View Written

/-- A run of a check and the run in a view end alike. -/
theorem Session.check_mirrors (v : View) (s : Session) (program : Program) :
    v.Mirrors (Infer.checkWith (.ofFuel Engine.fuelSupply) program s)
      (Infer.checkWith (.ofFuel Engine.fuelSupply) (program.respan v.span) (v.session s)) :=
  (Infer.checkWith_follows s).1

/-! ## Depth limits -/

namespace View

/-- The view that only has room for deeper runs. -/
def raised (bodies waves : Nat) : View where
  span := id
  bodies := bodies
  waves := waves
  suggestions := id
  absent := rfl

theorem session_of_span_eq_id {v : View} (hspan : v.span = id) (s : Session) :
    v.session s = { s with options := v.options s.options } := by
  have hargument : v.argument = id := by
    funext arg
    rw [argument, hspan]
    rfl
  have hblock : v.block = id := by
    have hexpr : Expr.respan id = id := funext Expr.respan_id
    funext block
    rw [View.block, hspan, hexpr, Option.map_id, id]
    rfl
  have hsite : v.site = id := by
    funext site
    rw [View.site, hargument, hblock, hspan, List.map_id, Option.map_id, id]
    rfl
  rw [session, v.flow_eq s.flow hspan, hsite, Array.map_id, hspan, TypeTable.respan_id]

end View

theorem Program.respan_id (program : Program) : program.respan id = program := by
  have hexpr : Expr.respan id = id := funext Expr.respan_id
  rw [respan, hexpr, List.map_id]

namespace Session

/-- A check that no depth limit cuts short is the same under higher limits. -/
theorem check_raised (s : Session) (program : Program) (bodies waves : Nat)
    (hcut : ∀ e, (s.check program).1 = .error (.failed e) → ¬e.IsCut) :
    ({ s with options := (raised bodies waves).options s.options } : Session).check program
      = ((s.check program).1, { (s.check program).2 with
          options := (raised bodies waves).options (s.check program).2.options }) := by
  have hspan : (raised bodies waves).span = id := rfl
  have h := check_mirrors (raised bodies waves) s program
  rw [hspan, Program.respan_id, session_of_span_eq_id hspan] at h
  unfold check at hcut ⊢
  generalize Infer.checkWith (.ofFuel Engine.fuelSupply) program s = r,
    Infer.checkWith (.ofFuel Engine.fuelSupply) program
      { s with options := (raised bodies waves).options s.options } = r' at h hcut ⊢
  cases h with
  | ok | outOfFuel => rw [session_of_span_eq_id hspan]
  | failed s' htells => rw [session_of_span_eq_id hspan, htells.same rfl rfl]
  | cut s' r hwidens hlimit => exact absurd hlimit (hcut _ rfl)

/-- Depth limits only cut runs short.  A check that succeeds succeeds under higher limits with the
same nodes, and leaves the same session up to the options; a check that fails for another reason
than a limit fails under higher limits with the same failure. -/
theorem check_same_of_limits_le {c d : InferenceOptions}
    (hbodies : c.maxInstantiationDepth ≤ d.maxInstantiationDepth)
    (hwaves : c.maxPropagationDepth ≤ d.maxPropagationDepth)
    (hsuggestions : d.suggestions = c.suggestions)
    (hobserve : d.observeArguments = c.observeArguments) (program : Program) :
    (∀ nodes s, (start c).check program = (.ok nodes, s) →
      ∃ o, (start d).check program = (.ok nodes, { s with options := o })) ∧
    (∀ e s, (start c).check program = (.error (.failed e), s) → ¬e.IsCut →
      ∃ o, (start d).check program = (.error (.failed e), { s with options := o })) := by
  obtain ⟨bodies, hbodies⟩ := Nat.exists_eq_add_of_le hbodies
  obtain ⟨waves, hwaves⟩ := Nat.exists_eq_add_of_le hwaves
  have hoptions : d = (raised bodies waves).options c := by
    obtain ⟨_, _, _, _⟩ := d
    subst hbodies hwaves hsuggestions hobserve
    rfl
  have hstart : ({ start c with options := (raised bodies waves).options (start c).options }
      : Session) = start d := by
    simp only [hoptions, start]
  constructor
  · intro nodes s hrun
    have h := check_raised (start c) program bodies waves (by simp [hrun])
    rw [hrun, hstart] at h
    exact ⟨_, h⟩
  · intro e s hrun hcut
    have h := check_raised (start c) program bodies waves (by simp [hrun, hcut])
    rw [hrun, hstart] at h
    exact ⟨_, h⟩

def nesting : Program :=
  program
    [ methodDecl "inner" [] (int 1), methodDecl "outer" [] (ask "inner" []),
      assign "x" (ask "outer" []) ]

/-- Two bodies inside each other need no more room than two, and one is too little. -/
theorem check_same_of_limits_le_nesting :
    ((start ⟨1, 1, true, true⟩).check nesting).1.isOk = false ∧
      ∃ nodes s o, (start ⟨2, 1, true, true⟩).check nesting = (.ok nodes, s) ∧
        (start default).check nesting = (.ok nodes, { s with options := o }) := by
  refine ⟨by decide +kernel, ?_⟩
  have hok : ((start ⟨2, 1, true, true⟩).check nesting).1.isOk = true := by decide +kernel
  obtain ⟨hsame, -⟩ := check_same_of_limits_le (c := ⟨2, 1, true, true⟩) (d := default)
    (by decide) (by decide) rfl rfl nesting
  generalize (start ⟨2, 1, true, true⟩).check nesting = r at hok hsame ⊢
  obtain ⟨_ | nodes, s⟩ := r
  · simp [Except.isOk, Except.toBool] at hok
  · obtain ⟨o, ho⟩ := hsame nodes s rfl
    exact ⟨nodes, s, o, rfl, ho⟩

end Session

/-! ## Spans and diagnostics -/

/-- The view without spans, in which names are always suggested. -/
def View.unplaced : View where
  span := fun _ => .absent
  bodies := 0
  waves := 0
  suggestions := fun _ => true
  absent := rfl

/-- A session without spans, and with suggestions. -/
def Session.unplaced (s : Session) : Session :=
  View.unplaced.session s

/-- Programs that differ at most in spans and in the source text. -/
def Program.SameCode (p q : Program) : Prop :=
  p.exprs.map (Expr.respan fun _ => .absent) = q.exprs.map (Expr.respan fun _ => .absent)

/-- Settings that differ at most in suggestions and diagnostics. -/
def Config.SameInference (c d : Config) : Prop :=
  { c.inference with suggestions := true } = { d.inference with suggestions := true }

/-- Outcomes that differ at most in the span, the trace and the help of a failure. -/
inductive SameOutcome : Except Halt (List NodeId) → Except Halt (List NodeId) → Prop
  | ok (nodes : List NodeId) : SameOutcome (.ok nodes) (.ok nodes)
  | outOfFuel : SameOutcome (.error .outOfFuel) (.error .outOfFuel)
  | failed {e e' : Failure} (hcause : e'.cause = e.cause) (hframes : e'.frames = e.frames) :
      SameOutcome (.error (.failed e)) (.error (.failed e'))

theorem SameOutcome.symm {r r' : Except Halt (List NodeId)} (h : SameOutcome r r') :
    SameOutcome r' r := by
  cases h with
  | ok nodes => exact .ok nodes
  | outOfFuel => exact .outOfFuel
  | failed hcause hframes => exact .failed hcause.symm hframes.symm

theorem SameOutcome.trans {r r' r'' : Except Halt (List NodeId)} (h : SameOutcome r r')
    (h' : SameOutcome r' r'') : SameOutcome r r'' := by
  cases h with
  | ok | outOfFuel => exact h'
  | failed hcause hframes =>
    cases h' with
    | failed hcause' hframes' => exact .failed (hcause'.trans hcause) (hframes'.trans hframes)

namespace Session

theorem start_unplaced (options : InferenceOptions) :
    (start options).unplaced = start { options with suggestions := true } := by
  have hflow : View.unplaced.flow (FlowGraph.empty.addTyped .nil .absent).2
      = (FlowGraph.empty.addTyped .nil .absent).2 := by
    simp [FlowGraph.addTyped, FlowGraph.empty, View.flow, View.node, View.unplaced]
  have htypes : TypeTable.standard.respan View.unplaced.span = .standard :=
    TypeTable.standard_respan View.unplaced.absent
  simp only [unplaced, View.session, start, htypes, hflow, List.map_toArray, List.map_nil]
  rfl

/-- A check without spans ends alike, in the session without spans. -/
theorem check_unplaced (s : Session) (program : Program) :
    SameOutcome (s.check program).1
        (s.unplaced.check (program.respan View.unplaced.span)).1 ∧
      (s.unplaced.check (program.respan View.unplaced.span)).2 = (s.check program).2.unplaced := by
  have h := check_mirrors View.unplaced s program
  unfold check unplaced
  generalize Infer.checkWith (.ofFuel Engine.fuelSupply) program s = r,
    Infer.checkWith (.ofFuel Engine.fuelSupply) (program.respan View.unplaced.span)
      (View.unplaced.session s) = r' at h ⊢
  cases h with
  | ok nodes s' => exact ⟨.ok nodes, rfl⟩
  | outOfFuel s' => exact ⟨.outOfFuel, rfl⟩
  | failed s' htells => exact ⟨.failed htells.cause htells.frames, rfl⟩
  | cut s' r hwidens hlimit => simp [View.Widens, View.unplaced] at hwidens

/-- Neither spans nor the source text nor the settings of diagnostics influence inference. -/
theorem check_same_of_sameCode {c d : Config} {p q : Program} (hconfig : c.SameInference d)
    (hprogram : p.SameCode q) :
    let r := (start c.inference).check p
    let r' := (start d.inference).check q
    SameOutcome r.1 r'.1 ∧ r'.2.unplaced = r.2.unplaced ∧
      (∀ node, r'.2.typeOf node = r.2.typeOf node) ∧
      (∀ id, (r'.2.call id).targets = (r.2.call id).targets ∧
        (r'.2.call id).signature = (r.2.call id).signature) ∧
      r'.2.instances = r.2.instances ∧ r'.2.cache = r.2.cache := by
  intro r r'
  obtain ⟨hr, hs⟩ := check_unplaced (start c.inference) p
  obtain ⟨hr', hs'⟩ := check_unplaced (start d.inference) q
  have hexprs : (q.respan View.unplaced.span).exprs = (p.respan View.unplaced.span).exprs :=
    hprogram.symm
  have hrun : (start d.inference).unplaced.check (q.respan View.unplaced.span)
      = (start c.inference).unplaced.check (p.respan View.unplaced.span) := by
    rw [start_unplaced, start_unplaced, ← hconfig]
    unfold check Infer.checkWith
    rw [hexprs]
  rw [hrun] at hr' hs'
  have hsame : r'.2.unplaced = r.2.unplaced := hs'.symm.trans hs
  have hcall : ∀ id, View.unplaced.site (r'.2.call id) = View.unplaced.site (r.2.call id) := by
    intro id
    rw [← session_call, ← session_call]
    exact congrArg (Session.call · id) hsame
  have htargets := fun id => congrArg CallSite.targets (hcall id)
  have hsignature := fun id => congrArg CallSite.signature (hcall id)
  have hinstances := congrArg Session.instances hsame
  have hcache := congrArg Session.cache hsame
  have htypes : r'.2.typeOf = r.2.typeOf := by
    rw [← View.unplaced.session_typeOf r'.2, ← View.unplaced.session_typeOf r.2]
    exact congrArg Session.typeOf hsame
  exact ⟨hr.trans hr'.symm, hsame, congrFun htypes, fun id => ⟨htargets id, hsignature id⟩,
    hinstances, hcache⟩

def outcomeFailure? : Except Halt (List NodeId) → Option Failure
  | .error (.failed e) => some e
  | _ => none

/-- Two assignments and a call of a name that is not quite a method, at the given place. -/
def misspelt (span : Span) : Program :=
  program
    [ assign "x" ⟨.nil, span⟩, assign "x" ⟨.int 1, span⟩,
      ⟨.call (.plain (some ⟨.var "x", span⟩) "to_z" []), span⟩ ]

/-- The same cause is told with and without places and suggestions, in different words. -/
theorem check_same_of_sameCode_misspelt :
    let span : Span := ⟨0, 1, 1, 1⟩
    let cause : Cause := .undefinedMethod "to_z" (some "Nil")
    let r := (start default).check (misspelt span)
    let r' := (start ⟨256, 1024, false, true⟩).check (misspelt .absent)
    outcomeFailure? r.1 = some ⟨cause, span, some "did you mean 'to_s'?", [span], []⟩ ∧
      outcomeFailure? r'.1 = some ⟨cause, .absent, none, [], []⟩ ∧ SameOutcome r.1 r'.1 := by
  have h := check_same_of_sameCode (c := default) (d := ⟨⟨256, 1024, false, true⟩, ⟨false, false⟩⟩)
    (p := misspelt ⟨0, 1, 1, 1⟩) (q := misspelt .absent) rfl rfl
  exact ⟨by decide +kernel, by decide +kernel, h.1⟩

end Session

end Callsite
