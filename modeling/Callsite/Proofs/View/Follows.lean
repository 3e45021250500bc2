import Callsite.Proofs.View.Keeping
import Callsite.Proofs.View.Sessions
import Callsite.Inference.Check

/-!
# Runs in a view

A run on a session is followed in a view of it: the run on the view ends as the run on the session
does, in the view of the session it leaves.  A failure has the same cause and the same frames
there, and is the very same failure when the spans and the suggestions are.  Only a run that a
depth limit cuts short is not followed when the view has room for more.  The same rules tell what
the run on the session keeps.
-/

namespace Callsite

open Infer

/-- The failures of runs that a depth limit cut short. -/
def Failure.IsCut (e : Failure) : Prop :=
  ∃ what limit, e.cause = .limitExceeded what limit

namespace View

variable (v : View) {α β γ : Type}

/-- The view has room for deeper runs. -/
def Widens : Prop :=
  0 < v.bodies + v.waves

/-- A failure as a view tells it. -/
structure Tells (e e' : Failure) : Prop where
  cause : e'.cause = e.cause
  frames : e'.frames = e.frames
  same : v.span = id → v.suggestions = id → e' = e

/-- How the end of a run on a session and the end of the run on its view agree. -/
inductive Mirrors : EStateM.Result Halt Session α → EStateM.Result Halt Session α → Prop where
  | ok (a : α) (s : Session) : Mirrors (.ok a s) (.ok a (v.session s))
  | outOfFuel (s : Session) :
      Mirrors (.error .outOfFuel s) (.error .outOfFuel (v.session s))
  | failed {e e' : Failure} (s : Session) (h : v.Tells e e') :
      Mirrors (.error (.failed e) s) (.error (.failed e') (v.session s))
  | cut {e : Failure} (s : Session) (r : EStateM.Result Halt Session α)
      (hwidens : v.Widens) (hcut : e.IsCut) : Mirrors (.error (.failed e) s) r

/-- The run of `y` on the view of a session follows the run of `x` on the session. -/
def FollowsFrom (s : Session) (x y : Infer α) : Prop :=
  v.Mirrors (x s) (y (v.session s)) ∧ s.KeepsBy (x s)

/-- The run of `y` on the view of any session follows the run of `x` on the session. -/
def Follows (x y : Infer α) : Prop :=
  ∀ s, v.FollowsFrom s x y

/-- `x` does the same in the view. -/
abbrev Respects (x : Infer α) : Prop :=
  v.Follows x x

variable {v}

theorem Tells.of (cause : Cause) (span : Span) :
    v.Tells (.of cause span) (.of cause (v.span span)) where
  cause := rfl
  frames := rfl
  same hspan _ := by rw [hspan, id]

theorem Tells.within {e e' : Failure} (h : v.Tells e e') (frame : String) :
    v.Tells (e.within frame) (e'.within frame) where
  cause := h.cause
  frames := by rw [Failure.within, Failure.within, h.frames]
  same hspan hsuggestions := by rw [h.same hspan hsuggestions]

/-- The ends of two runs agree also after a last step. -/
theorem Mirrors.leave {r r' : EStateM.Result Halt Session α} (leave : Session → Session)
    (hleave : ∀ s, v.session (leave s) = leave (v.session s)) : v.Mirrors r r' → v.Mirrors
      (match r with
        | .ok a s => .ok a (leave s)
        | .error halt s => .error halt (leave s))
      (match r' with
        | .ok a s => .ok a (leave s)
        | .error halt s => .error halt (leave s)) := by
  intro h
  cases h with
  | cut s r hwidens hcut => exact .cut _ _ hwidens hcut
  | ok a s =>
    dsimp only
    rw [← hleave]
    exact .ok a _
  | outOfFuel s =>
    dsimp only
    rw [← hleave]
    exact .outOfFuel _
  | failed s h =>
    dsimp only
    rw [← hleave]
    exact .failed _ h

/-- The run of the first part decides how the two runs go on. -/
theorem FollowsFrom.bind_map {s : Session} {x : Infer α} {y : Infer β} {g : α → β}
    {f : α → Infer γ} {f' : β → Infer γ} (hx : v.FollowsFrom s (g <$> x) y)
    (hf : ∀ a s', x s = .ok a s' → v.FollowsFrom s' (f a) (f' (g a))) :
    v.FollowsFrom s (x >>= f) (y >>= f') := by
  obtain ⟨hmirrors, hkeeps⟩ := hx
  change v.Mirrors (EStateM.bind x f s) (EStateM.bind y f' (v.session s)) ∧
    s.KeepsBy (EStateM.bind x f s)
  change v.Mirrors (EStateM.map g x s) (y (v.session s)) at hmirrors
  change s.KeepsBy (EStateM.map g x s) at hkeeps
  rw [EStateM.bind, EStateM.bind]
  rw [EStateM.map] at hmirrors hkeeps
  cases hrun : x s with
  | ok a s' =>
    rw [hrun] at hmirrors hkeeps
    have hrest := hf a s' hrun
    generalize y (v.session s) = r at hmirrors
    cases hmirrors
    exact ⟨hrest.1, hkeeps.followedBy hrest.2⟩
  | error halt s' =>
    rw [hrun] at hmirrors hkeeps
    refine ⟨?_, hkeeps⟩
    generalize y (v.session s) = r at hmirrors
    cases hmirrors with
    | outOfFuel => exact .outOfFuel s'
    | failed _ h => exact .failed s' h
    | cut _ _ hwidens hcut => exact .cut s' _ hwidens hcut

variable {s : Session} {x y : Infer α} {f f' : α → Infer β} {g : β → γ} {h : α → γ}

theorem FollowsFrom.bind (hx : v.FollowsFrom s x y)
    (hf : ∀ a s', x s = .ok a s' → v.FollowsFrom s' (f a) (f' a)) :
    v.FollowsFrom s (x >>= f) (y >>= f') := by
  have hid : v.FollowsFrom s (id <$> x) y := by rwa [id_map]
  exact hid.bind_map hf

/-! ## Rules for following a run -/

namespace Follows

theorem pure (a : α) : v.Respects (Pure.pure a) :=
  fun s => ⟨.ok a s, .refl s⟩

theorem bind_map {x : Infer α} {y : Infer β} {g : α → β} {f : α → Infer γ} {f' : β → Infer γ}
    (hx : v.Follows (g <$> x) y) (hf : ∀ a, v.Follows (f a) (f' (g a))) :
    v.Follows (x >>= f) (y >>= f') :=
  fun s => (hx s).bind_map fun a s' _ => hf a s'

theorem bind (hx : v.Follows x y) (hf : ∀ a, v.Follows (f a) (f' a)) :
    v.Follows (x >>= f) (y >>= f') :=
  fun s => (hx s).bind fun a s' _ => hf a s'

theorem get_bind {f f' : Session → Infer β} (hf : ∀ s, v.Follows (f s) (f' (v.session s))) :
    v.Follows (get >>= f) (get >>= f') :=
  fun s => hf s s

theorem get_from {f f' : Session → Infer β}
    (hf : ∀ s, v.FollowsFrom s (f s) (f' (v.session s))) : v.Follows (get >>= f) (get >>= f') :=
  hf

theorem ite {p : Prop} [Decidable p] {x y x' y' : Infer α} (hx : p → v.Follows x y)
    (hx' : ¬p → v.Follows x' y') : v.Follows (if p then x else x') (if p then y else y') := by
  split
  · exact hx (by assumption)
  · exact hx' (by assumption)

theorem map_pure (g : α → β) (a : α) :
    v.Follows (g <$> (Pure.pure a : Infer α)) (Pure.pure (g a)) :=
  fun s => ⟨.ok (g a) s, .refl s⟩

theorem map (g : α → β) (hx : v.Follows x y) : v.Follows (g <$> x) (g <$> y) :=
  hx.bind fun a => pure (g a)

/-- The result of a sequence in a view. -/
theorem bind_mapped {f' : α → Infer γ} (hx : v.Follows x y)
    (hf : ∀ a, v.Follows (g <$> f a) (f' a)) :
    v.Follows (g <$> (x >>= f)) (y >>= f') := by
  rw [map_bind]
  exact hx.bind hf

theorem modify {f f' : Session → Session} (hf : ∀ s, v.session (f s) = f' (v.session s))
    (hkeeps : ∀ s : Session, s.Keeps (f s) []) :
    v.Follows (modify f) (modify f') := by
  intro s
  refine ⟨?_, hkeeps s⟩
  change v.Mirrors (.ok PUnit.unit (f s)) (.ok PUnit.unit (f' (v.session s)))
  rw [← hf]
  exact .ok _ _

theorem modifyGet {f f' : Session → α × Session}
    (hf : ∀ s, f' (v.session s) = ((f s).1, v.session (f s).2))
    (hkeeps : ∀ s : Session, s.Keeps (f s).2 []) :
    v.Follows (modifyGet f) (modifyGet f') := by
  intro s
  refine ⟨?_, hkeeps s⟩
  change v.Mirrors (.ok (f s).1 (f s).2) (.ok (f' (v.session s)).1 (f' (v.session s)).2)
  rw [hf]
  exact .ok _ _

theorem throw_tells {e e' : Failure} (h : v.Tells e e') :
    v.Follows (throw (.failed e) : Infer α) (throw (.failed e')) :=
  fun s => ⟨.failed s h, [], .refl s, fun _ _ => Nat.zero_le _⟩

theorem fail (cause : Cause) (span : Span) :
    v.Follows (fail cause span : Infer α) (fail cause (v.span span)) :=
  throw_tells (.of cause span)

theorem throw_outOfFuel : v.Follows (throw .outOfFuel : Infer α) (throw .outOfFuel) :=
  fun s => ⟨.outOfFuel s, [], .refl s, fun _ _ => Nat.zero_le _⟩

/-- A run that a depth limit cuts short; the view need not cut it when it has room. -/
theorem limit {what : String} {limit : Nat} {span : Span} {y : Infer α}
    (hy : ¬v.Widens → y = Infer.fail (.limitExceeded what limit) (v.span span)) :
    v.Follows (Infer.fail (.limitExceeded what limit) span) y := by
  by_cases hwidens : v.Widens
  · exact fun s => ⟨.cut s _ hwidens ⟨what, limit, rfl⟩, [], .refl s, fun _ _ => Nat.zero_le _⟩
  · rw [hy hwidens]
    exact fail _ span

theorem mapM_map {δ : Type} {f' : γ → Infer δ} {g : β → δ}
    (hf : ∀ a, v.Follows (g <$> f a) (f' (h a))) (l : List α) :
    v.Follows (List.map g <$> l.mapM f) ((l.map h).mapM f') := by
  induction l with
  | nil => exact map_pure _ []
  | cons a l ih =>
    rw [List.map_cons, List.mapM_cons, List.mapM_cons, map_bind]
    refine (hf a).bind_map fun b => ?_
    rw [map_bind]
    exact ih.bind_map fun bs => map_pure _ (b :: bs)

theorem mapM_mapped {f' : α → Infer γ} (hf : ∀ a, v.Follows (g <$> f a) (f' a)) (l : List α) :
    v.Follows (List.map g <$> l.mapM f) (l.mapM f') := by
  have h := mapM_map (h := id) hf l
  rwa [List.map_id] at h

theorem mapM {f' : γ → Infer β} (hf : ∀ a, v.Follows (f a) (f' (h a))) (l : List α) :
    v.Follows (l.mapM f) ((l.map h).mapM f') := by
  have hid : ∀ a, v.Follows (id <$> f a) (f' (h a)) := by
    intro a
    rw [id_map]
    exact hf a
  have h := mapM_map hid l
  rwa [List.map_id_fun, id_map] at h

theorem mapM_same (hf : ∀ a, v.Follows (f a) (f' a)) (l : List α) :
    v.Follows (l.mapM f) (l.mapM f') := by
  have h := mapM (h := id) hf l
  rwa [List.map_id] at h

theorem forM {f : α → Infer PUnit} {f' : γ → Infer PUnit}
    (hf : ∀ a, v.Follows (f a) (f' (h a))) (l : List α) :
    v.Follows (l.forM f) ((l.map h).forM f') := by
  induction l with
  | nil => exact pure ()
  | cons a l ih => exact (hf a).bind fun _ => ih

theorem forM_same {f f' : α → Infer PUnit} (hf : ∀ a, v.Follows (f a) (f' a)) (l : List α) :
    v.Follows (l.forM f) (l.forM f') := by
  have h := forM (h := id) hf l
  rwa [List.map_id] at h

theorem optionMapM_map {δ : Type} {f' : γ → Infer δ} {g : β → δ}
    (hf : ∀ a, v.Follows (g <$> f a) (f' (h a))) (o : Option α) :
    v.Follows (Option.map g <$> o.mapM f) ((o.map h).mapM f') := by
  cases o with
  | none => exact map_pure _ none
  | some a =>
    have hsome := (hf a).map some
    rw [Functor.map_map] at hsome
    rw [Option.map_some, Option.mapM_some, Option.mapM_some, Functor.map_map]
    exact hsome

theorem optionMapM {f' : γ → Infer β} (hf : ∀ a, v.Follows (f a) (f' (h a))) (o : Option α) :
    v.Follows (o.mapM f) ((o.map h).mapM f') := by
  cases o with
  | none => exact pure none
  | some a =>
    exact (hf a).map some

theorem optionMapM_same (hf : ∀ a, v.Follows (f a) (f' a)) (o : Option α) :
    v.Follows (o.mapM f) (o.mapM f') := by
  have h := optionMapM (h := id) hf o
  rwa [Option.map_id, id] at h

/-! ## Steps of inference -/

theorem known (type : TypeId) : v.Respects (known type) := by
  refine get_bind fun s => ?_
  rw [session_types, TypeTable.size_respan]
  split
  · exact pure _
  · exact throw_outOfFuel

theorem build {x y : Build α} (hx : Respans v.span x y) :
    v.Follows (Infer.build x) (Infer.build y) := by
  intro s
  have hrun : Infer.build y (v.session s) = .ok (x s.types).1
      (v.session { s with types := (x s.types).2 }) := by
    rw [Infer.build, session_types, hx s.types]
    rfl
  rw [FollowsFrom, hrun]
  exact ⟨.ok _ _, .of_kept rfl⟩

theorem denoting {x y : Denote α} (hx : Denote.Respans v.span x y) :
    v.Follows (Infer.denoting x) (Infer.denoting y) := by
  intro s
  have hkeeps : ∀ types, s.Keeps { s with types } [] :=
    fun _ => .of_kept rfl
  rw [FollowsFrom, Infer.denoting, Infer.denoting, session_types, hx s.types]
  cases x s.types with
  | ok a types => exact ⟨.ok a { s with types }, hkeeps types⟩
  | error e types =>
    have htells : v.Tells e { e with span := v.span e.span } := by
      refine ⟨rfl, rfl, fun hspan _ => ?_⟩
      rw [hspan]
      rfl
    exact ⟨.failed { s with types } htells, [], hkeeps types, fun _ _ => Nat.zero_le _⟩

theorem within (frame : String) (hx : v.Follows x y) :
    v.Follows (Infer.within frame x) (Infer.within frame y) := by
  intro s
  obtain ⟨hmirrors, hkeeps⟩ := hx s
  rw [FollowsFrom, Infer.within, Infer.within]
  generalize x s = r, y (v.session s) = r' at hmirrors hkeeps
  have hmore : ∀ {e : Failure} {s'}, s.KeepsBy (.error (.failed e) s' : EStateM.Result _ _ α) →
      s.KeepsBy (.error (.failed (e.within frame)) s' : EStateM.Result _ _ α) := by
    rintro e s' ⟨left, hleft, hlength⟩
    refine ⟨left, hleft, ?_⟩
    rintro _ ⟨⟩
    exact Nat.le_trans (hlength e rfl) (by simp [Failure.within])
  cases hmirrors with
  | ok a s => exact ⟨.ok a s, hkeeps⟩
  | outOfFuel s => exact ⟨.outOfFuel s, hkeeps⟩
  | failed s h => exact ⟨.failed s (h.within frame), hmore hkeeps⟩
  | cut s r hwidens hcut => exact ⟨.cut s _ hwidens hcut, hmore hkeeps⟩

theorem modifyFlow {f f' : FlowGraph → FlowGraph} (hf : ∀ g, v.flow (f g) = f' (v.flow g)) :
    v.Follows (modifyFlow f) (modifyFlow f') := by
  refine modify (fun s => ?_) fun _ => .of_kept rfl
  rw [session_flow, ← hf]
  rfl

theorem ruledNode (rule : Rule) (span : Span) :
    v.Follows (ruledNode rule span) (ruledNode rule (v.span span)) := by
  refine modifyGet (fun s => ?_) fun _ => .of_kept rfl
  rw [session_flow, flow_add]
  rfl

theorem newNode (span : Span) : v.Follows (newNode span) (newNode (v.span span)) :=
  ruledNode .union span

theorem typedNode (type : TypeId) (span : Span) :
    v.Follows (typedNode type span) (typedNode type (v.span span)) := by
  refine modifyGet (fun s => ?_) fun _ => .of_kept rfl
  rw [session_flow, flow_addTyped]
  rfl

theorem modifyCall {f f' : CallSite → CallSite} (id : CallId)
    (hf : ∀ site, v.site (f site) = f' (v.site site)) :
    v.Follows (modifyCall id f) (modifyCall id f') := by
  refine modify (fun s => ?_) fun _ => .of_kept rfl
  rw [session, map_modify hf]
  rfl

theorem pushCall (site : CallSite) :
    v.Follows (pushCall site) (pushCall (v.site site)) := by
  refine modifyGet (fun s => ?_) fun _ => .of_kept rfl
  simp [session]

theorem pushInstance (inst : Instance) : v.Respects (pushInstance inst) :=
  modifyGet (fun _ => rfl) fun _ => .pushInstance inst

theorem modifyInstance (id : InstanceId) {f : Instance → Instance}
    (hkind : ∀ inst, (f inst).kind = inst.kind)
    (hbody : ∀ inst, (f inst).body = none → inst.body = none) :
    v.Respects (modifyInstance id f) :=
  modify (fun _ => rfl) fun _ => .modifyInstance id hkind hbody

theorem childScope (parent : ScopeId) : v.Respects (childScope parent) :=
  get_bind fun _ => modifyGet (fun _ => rfl) fun _ => .of_kept rfl

theorem bindVar (scope : ScopeId) (name : String) (node : NodeId) :
    v.Respects (bindVar scope name node) :=
  modify (fun _ => rfl) fun _ => .of_kept rfl

theorem keeps (h : v.Follows x y) {s' : Session} {a : α}
    (hrun : x s = .ok a s') : s.Keeps s' [] := by
  have hkeeps := (h s).2
  rwa [hrun] at hkeeps

end Follows

end View

end Callsite
